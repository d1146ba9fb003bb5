/-!
Decimal digits: the value of a run of digits, the digits of a number, and the two integer readers built on them.

`natOfDigits?` reads a non-empty run of ASCII digits; `readNat?` allows one leading plus sign and refuses values
past a limit; `readInt?` also allows a minus sign and takes a range. `natText` and `intText` write the plain
decimal form, and reading gives the number back (`natOfDigits?_digitsOf`).
-/

namespace Reaper.Text

/-- The ASCII digits. -/
def isDigit (c : Char) : Bool := 48 ≤ c.toNat && c.toNat ≤ 57

def digitValue (c : Char) : Nat := c.toNat - 48

/-- The digit of a value below ten. -/
def digitChar (n : Nat) : Char := Char.ofNat (48 + n)

/-- Reads digits from the left onto a value already read. -/
def digitsOnto (acc : Nat) (cs : List Char) : Nat :=
  cs.foldl (fun a c => a * 10 + digitValue c) acc

/-- The number that a non-empty run of digits denotes. -/
def natOfDigits? (cs : List Char) : Option Nat :=
  if cs.isEmpty then none
  else if cs.all isDigit then some (digitsOnto 0 cs)
  else none

/-- The decimal digits of a number, most significant first. -/
def digitsOf (n : Nat) : List Char :=
  if n < 10 then [digitChar n] else digitsOf (n / 10) ++ [digitChar (n % 10)]
termination_by n

/-- The decimal text of a natural number. -/
def natText (n : Nat) : String := String.ofList (digitsOf n)

/-- The decimal text of an integer, with a minus sign below zero. -/
def intText (i : Int) : String :=
  if i < 0 then String.ofList ('-' :: digitsOf i.natAbs) else natText i.natAbs

/-- Digits after an optional plus sign, at most `limit`. -/
def readNat? (limit : Nat) (cs : List Char) : Option Nat := do
  let body := match cs with
    | '+' :: rest => rest
    | _ => cs
  let n ← natOfDigits? body
  if n ≤ limit then some n else none

/-- Digits after an optional sign, within `low` and `high`. -/
def readInt? (low high : Int) (cs : List Char) : Option Int := do
  let i : Int ← match cs with
    | '-' :: rest => (natOfDigits? rest).map fun n => -(n : Int)
    | '+' :: rest => (natOfDigits? rest).map fun n => (n : Int)
    | _ => (natOfDigits? cs).map fun n => (n : Int)
  if low ≤ i ∧ i ≤ high then some i else none

/-- Writes a number with at least `width` digits, padding with zeros. -/
def paddedText (width n : Nat) : String :=
  let ds := digitsOf n
  String.ofList (List.replicate (width - ds.length) '0' ++ ds)

@[simp] theorem isDigit_digitChar {n : Nat} (h : n < 10) : isDigit (digitChar n) = true := by
  have : n = 0 ∨ n = 1 ∨ n = 2 ∨ n = 3 ∨ n = 4 ∨ n = 5 ∨ n = 6 ∨ n = 7 ∨ n = 8 ∨ n = 9 := by omega
  rcases this with rfl | rfl | rfl | rfl | rfl | rfl | rfl | rfl | rfl | rfl <;> decide

@[simp] theorem digitValue_digitChar {n : Nat} (h : n < 10) : digitValue (digitChar n) = n := by
  have : n = 0 ∨ n = 1 ∨ n = 2 ∨ n = 3 ∨ n = 4 ∨ n = 5 ∨ n = 6 ∨ n = 7 ∨ n = 8 ∨ n = 9 := by omega
  rcases this with rfl | rfl | rfl | rfl | rfl | rfl | rfl | rfl | rfl | rfl <;> decide

theorem digitsOnto_append (acc : Nat) (cs ds : List Char) :
    digitsOnto acc (cs ++ ds) = digitsOnto (digitsOnto acc cs) ds := by
  simp [digitsOnto, List.foldl_append]

theorem digitsOf_ne_nil (n : Nat) : digitsOf n ≠ [] := by
  rw [digitsOf]; split <;> simp

theorem all_isDigit_digitsOf (n : Nat) : (digitsOf n).all isDigit = true := by
  induction n using Nat.strongRecOn with
  | ind n ih =>
    rw [digitsOf]
    split
    · simp [isDigit_digitChar ‹_›]
    · rw [List.all_append, ih (n / 10) (by omega)]
      simp [isDigit_digitChar (Nat.mod_lt n (by decide))]

theorem digitsOnto_digitsOf (n : Nat) : digitsOnto 0 (digitsOf n) = n := by
  induction n using Nat.strongRecOn with
  | ind n ih =>
    rw [digitsOf]
    split
    · simp [digitsOnto, digitValue_digitChar ‹_›]
    · rw [digitsOnto_append, ih (n / 10) (by omega)]
      simp [digitsOnto, digitValue_digitChar (Nat.mod_lt n (by decide))]
      omega

/-- Reading what is written gives the number back. -/
theorem natOfDigits?_digitsOf (n : Nat) : natOfDigits? (digitsOf n) = some n := by
  simp [natOfDigits?, digitsOf_ne_nil, all_isDigit_digitsOf, digitsOnto_digitsOf]

end Reaper.Text
