/-!
White space and trimming.

`isBlank` is the White_Space property of the character database: the five controls from TAB to CR, the space,
NEL, and the eighteen space separators and line separators. `trim` drops blanks from both ends of a list of
characters; `trimText` does so for a string. A text that starts and ends with something visible is left alone
(`trim_eq_self`), and what `trim` returns starts and ends with something visible.
-/

namespace Reaper.Text

/-- The characters with the White_Space property. -/
def isBlank (c : Char) : Bool :=
  let n := c.toNat
  (9 ≤ n && n ≤ 13) || n == 32 || n == 0x85 || n == 0xA0 || n == 0x1680 ||
    (0x2000 ≤ n && n ≤ 0x200A) || n == 0x2028 || n == 0x2029 || n == 0x202F || n == 0x205F || n == 0x3000

/-- The list without the blanks at its end. -/
def trimEnd : List Char → List Char
  | [] => []
  | c :: rest =>
    match trimEnd rest with
    | [] => if isBlank c then [] else [c]
    | kept => c :: kept

/-- The list without the blanks at its start. -/
def trimStart (cs : List Char) : List Char := cs.dropWhile isBlank

/-- The list without the blanks at either end. -/
def trim (cs : List Char) : List Char := trimEnd (trimStart cs)

/-- The text without the blanks at either end. -/
def trimText (s : String) : String := String.ofList (trim s.toList)

/-- Whether a text has nothing but blanks. -/
def isBlankText (s : String) : Bool := (trim s.toList).isEmpty

/-- Equal up to the case of ASCII letters. -/
def equalsIgnoringCase (s : List Char) (t : String) : Bool :=
  s.map Char.toLower == t.toList.map Char.toLower

@[simp] theorem trimEnd_nil : trimEnd [] = [] := rfl

/-- A visible last character stops the trimming. -/
theorem trimEnd_concat (cs : List Char) {c : Char} (h : isBlank c = false) :
    trimEnd (cs ++ [c]) = cs ++ [c] := by
  induction cs with
  | nil => simp [trimEnd, h]
  | cons d rest ih =>
    rw [List.cons_append, trimEnd, ih]
    split
    · rename_i h'; simp at h'
    · rfl

/-- A text whose two ends are visible is its own trimmed form. -/
theorem trim_eq_self {cs : List Char} (hfirst : ∀ c, cs.head? = some c → isBlank c = false)
    (hlast : ∀ c, cs.getLast? = some c → isBlank c = false) : trim cs = cs := by
  have hstart : trimStart cs = cs := by
    cases cs with
    | nil => rfl
    | cons c rest => exact List.dropWhile_cons_of_neg (by simp [hfirst c rfl])
  rw [trim, hstart]
  cases h : cs.getLast? with
  | none => rw [List.getLast?_eq_none_iff.mp h, trimEnd_nil]
  | some c =>
    obtain ⟨front, rfl⟩ := List.getLast?_eq_some_iff.mp h
    exact trimEnd_concat front (hlast c h)

end Reaper.Text
