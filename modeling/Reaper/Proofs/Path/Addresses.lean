import Reaper.Path.Printer
import Reaper.Proofs.Text.Digits

/-!
# Every place has an address

The places of a document are what chains of keys and indexes lead to (`Leads`). A chain in writing, with or without a
dollar sign or braces around it, is read as the chain again, whatever characters its keys are made of
(`parse_spelling`), and so leads to its place (`every_place_is_addressable`). An index after a dot is read as a key,
which leads to the same item.

Only the empty key has no place in writing, and blanks at the end of the last key would be taken for blanks around the
path.

  §1 Places    — chains of steps.
  §2 Steps     — what is written for a step, and what it is read as.
  §3 Scanning  — a chain that is written is read back.
  §4 Spellings — the dollar sign and the braces.
-/

namespace Reaper

/-! ## §1 Places -/

/-- A step that can be written: a key that has characters, or an index that is a machine word. -/
def Step.IsWritable : Step → Prop
  | .key name => name ≠ ""
  | .index i => i ≤ indexLimit

theorem Step.toList_ne_nil {name : String} (h : (key name).IsWritable) : name.toList ≠ [] :=
  fun hnil => h (String.toList_eq_nil_iff.mp hnil)

/-- A step from a node to a child of it: a key of an object, or an index of an array. -/
inductive Step.LeadsTo : Step → Json → Json → Prop
  | key {name : String} {node child : Json} (hwritable : (key name).IsWritable) (hchild : node.get? name = some child) :
      LeadsTo (.key name) node child
  | index {i : Nat} {node child : Json} (hwritable : (index i).IsWritable) (hchild : node.item? i = some child) :
      LeadsTo (.index i) node child

theorem Step.LeadsTo.isWritable {s : Step} {node child : Json} (h : s.LeadsTo node child) : s.IsWritable := by
  cases h <;> assumption

namespace Path

open Text (digitsOf natText isBlank trim)

variable {raw : String} {steps done : List Step} {current cs : List Char} {doc v : Json}

/-- A chain of steps leads from a node to another. -/
inductive Leads : List Step → Json → Json → Prop
  | here (v : Json) : Leads [] v v
  | step {s : Step} {rest : List Step} {node child v : Json} (hstep : s.LeadsTo node child) (hrest : Leads rest child v) :
      Leads (s :: rest) node v

theorem Leads.isWritable (h : Leads steps doc v) : ∀ s ∈ steps, s.IsWritable := by
  induction h with
  | here => simp
  | step hstep _ ih => exact List.forall_mem_cons.mpr ⟨hstep.isWritable, ih⟩

/-! ## §2 Steps -/

/-- What a written step is read as: an index after a dot is a key. -/
def readAs : Step × IndexStyle → Step
  | (.index i, .dotted) => .key (natText i)
  | (step, _) => step

theorem isWritable_readAs {s : Step × IndexStyle} (h : s.1.IsWritable) : (readAs s).IsWritable := by
  match s with
  | (.key name, _) => exact h
  | (.index i, .bracketed) => exact h
  | (.index i, .dotted) =>
    intro hempty
    exact Text.digitsOf_ne_nil i (by simpa [natText] using congrArg String.toList hempty)

theorem isSpecial_of_isDigit {c : Char} (h : Text.isDigit c = true) : isSpecial c = false := by
  have hdot : c ≠ '.' := Text.ne_of_isDigit h (by decide)
  have hslash : c ≠ '\\' := Text.ne_of_isDigit h (by decide)
  have hbracket : c ≠ '[' := Text.ne_of_isDigit h (by decide)
  simp [isSpecial, hdot, hslash, hbracket]

theorem escapedKey_cons (c : Char) (cs : List Char) :
    escapedKey (c :: cs) = (if isSpecial c then ['\\', c] else [c]) ++ escapedKey cs := rfl

theorem escapedKey_of_forall (h : ∀ c ∈ cs, isSpecial c = false) : escapedKey cs = cs := by
  induction cs with
  | nil => rfl
  | cons c rest ih =>
    obtain ⟨hc, hrest⟩ := List.forall_mem_cons.mp h
    rw [escapedKey_cons, hc, ih hrest]
    rfl

theorem getLast?_escapedKey (cs : List Char) : (escapedKey cs).getLast? = cs.getLast? := by
  induction cs with
  | nil => rfl
  | cons c rest ih =>
    rw [escapedKey_cons, List.getLast?_append, ih, List.getLast?_cons]
    cases rest.getLast? <;> split <;> rfl

/-- A step is written like what it is read as. -/
theorem stepChars_readAs (s : Step × IndexStyle) : stepChars (readAs s, .bracketed) = stepChars s := by
  match s with
  | (.key name, _) => rfl
  | (.index i, .bracketed) => rfl
  | (.index i, .dotted) =>
    have hdigits : escapedKey (digitsOf i) = digitsOf i :=
      escapedKey_of_forall fun c hc => isSpecial_of_isDigit (Text.isDigit_of_mem_digitsOf hc)
    simp [readAs, stepChars, natText, hdigits]

/-- A chain in writing, with its indexes in brackets. -/
def chars (steps : List Step) : List Char := steps.flatMap fun s => stepChars (s, .bracketed)

theorem toList_written (steps : List (Step × IndexStyle)) : (written steps).toList = chars (steps.map readAs) := by
  simp only [written, String.toList_ofList, chars, List.flatMap_map, stepChars_readAs]

/-- What a step is read as leads where the step leads. -/
theorem follow?_readAs {s : Step × IndexStyle} {node child : Json} (h : s.1.LeadsTo node child) :
    (readAs s).follow? node = some child := by
  match s, node, h with
  | (.key name, _), .object fields, .key _ hchild => exact hchild
  | (.index i, .bracketed), .array items, .index _ hchild => exact hchild
  | (.index i, .dotted), .array items, .index hword hchild =>
    have hread : Text.readNat? Step.indexLimit (natText i).toList = some i := by
      rw [natText, String.toList_ofList, Text.readNat?_digitsOf hword]
    change (Text.readNat? Step.indexLimit (natText i).toList).bind (items[·]?) = some child
    rw [hread]
    exact hchild

theorem Leads.follow? {steps : List (Step × IndexStyle)} (h : Leads (steps.map (·.1)) doc v) :
    Path.follow? (steps.map readAs) doc = some v := by
  induction steps generalizing doc with
  | nil =>
    cases h
    rfl
  | cons s rest ih =>
    cases h with
    | step hstep hrest => rw [List.map_cons, Path.follow?, follow?_readAs hstep, Option.bind_some, ih hrest]

/-! ## §3 Scanning -/

/-- A bracket's content that is a number is an index. -/
theorem bracketStep_digitsOf {i : Nat} (h : (Step.index i).IsWritable) : bracketStep (trim (digitsOf i)) = .index i := by
  have hdigit : ∀ c ∈ digitsOf i, Text.isDigit c = true := fun _ => Text.isDigit_of_mem_digitsOf
  have hunquoted (quote : Char) (hquote : Text.isDigit quote = false) : between? quote quote (digitsOf i) = none := by
    cases hcs : digitsOf i with
    | nil => rfl
    | cons c rest =>
      have hc : c ≠ quote := Text.ne_of_isDigit (hdigit c (by simp [hcs])) hquote
      simp [between?, hc]
  rw [Text.trim_digitsOf, bracketStep, hunquoted '\x27' (by decide), hunquoted '\x22' (by decide)]
  simp only [Option.or_none, Text.readNat?_digitsOf h]

/-- A character of a key is read back, whether it takes a backslash or not. -/
theorem scan_escaped (c : Char) (dot : Bool) (rest : List Char) :
    scan raw (.word current dot) done ((if isSpecial c then ['\\', c] else [c]) ++ rest) =
      scan raw (.word (current ++ [c]) false) done rest := by
  by_cases hspecial : isSpecial c = true
  · rw [if_pos hspecial]
    simp [scan]
  · have hplain : c ≠ '.' ∧ c ≠ '\\' ∧ c ≠ '[' := by simpa [isSpecial, and_assoc] using hspecial
    rw [if_neg hspecial]
    simp [scan, hplain]

/-- A key is read back from its escaped form. -/
theorem scan_escapedKey (hcs : cs ≠ []) (dot : Bool) (rest : List Char) :
    scan raw (.word current dot) done (escapedKey cs ++ rest) = scan raw (.word (current ++ cs) false) done rest := by
  induction cs generalizing current dot with
  | nil => exact absurd rfl hcs
  | cons c more ih =>
    rw [escapedKey_cons, List.append_assoc, scan_escaped]
    cases more with
    | nil => rfl
    | cons d more => rw [ih (by simp), List.append_assoc, List.singleton_append]

/-- What stands in a bracket is read up to the closing bracket. -/
theorem scan_bracket {inner : List Char} (hcs : ']' ∉ cs) (rest : List Char) :
    scan raw (.bracket inner) done (cs ++ ']' :: rest) =
      scan raw (.word [] false) (done ++ [bracketStep (trim (inner ++ cs))]) rest := by
  induction cs generalizing inner with
  | nil => simp [scan]
  | cons c more ih =>
    obtain ⟨hc, hmore⟩ : ']' ≠ c ∧ ']' ∉ more := by simpa using hcs
    rw [List.cons_append, scan, if_neg (Ne.symm hc), ih hmore, List.append_assoc, List.singleton_append]

/-- A chain in writing is read as the chain, after what was read before. -/
theorem scan_chars (h : ∀ s ∈ steps, s.IsWritable) :
    scan raw (.word current false) done (chars steps) = .ok (flush done current ++ steps) := by
  -- a key waits in `current` until the next step begins, so the induction is over every such key
  induction steps generalizing current done with
  | nil => simp [chars, scan]
  | cons s rest ih =>
    obtain ⟨hs, hrest⟩ := List.forall_mem_cons.mp h
    have hchars : chars (s :: rest) = stepChars (s, .bracketed) ++ chars rest := rfl
    rw [hchars]
    cases s with
    | key name =>
      have hname : name.toList ≠ [] := Step.toList_ne_nil hs
      have hflush : flush (flush done current) name.toList = flush done current ++ [.key name] := by
        simp [flush, hname]
      rw [stepChars, List.cons_append, scan, if_pos rfl, if_neg (by simp), scan_escapedKey hname, List.nil_append, ih hrest,
        hflush, List.append_assoc, List.singleton_append]
    | index i =>
      have hdigits : ']' ∉ digitsOf i := fun hmem =>
        Text.ne_of_isDigit (Text.isDigit_of_mem_digitsOf hmem) (by decide) rfl
      rw [stepChars, List.cons_append, List.append_assoc, List.singleton_append, scan, if_neg (by decide),
        if_neg (by decide), if_pos rfl, scan_bracket hdigits, List.nil_append, bracketStep_digitsOf hs, ih hrest]
      simp [flush]

/-! ## §4 Spellings -/

/-- A path as it is, after a dollar sign, and in braces. -/
def spellings (path : String) : List String := [path, "$" ++ path, "\x7b" ++ path ++ "\x7d"]

/-- The last key of a chain, if it ends with one, does not end with a blank. -/
def EndsVisibly (steps : List Step) : Prop :=
  ∀ name c, steps.getLast? = some (.key name) → name.toList.getLast? = some c → isBlank c = false

/-- Neither does the last digit of a dotted index. -/
theorem EndsVisibly.readAs {steps : List (Step × IndexStyle)} (h : EndsVisibly (steps.map (·.1))) :
    EndsVisibly (steps.map readAs) := by
  intro name c hkey hc
  obtain ⟨s, hs, hread⟩ := Option.map_eq_some_iff.mp (List.getLast?_map.symm.trans hkey)
  match s, hread with
  | (.key _, _), rfl => exact h name c (by rw [List.getLast?_map, hs]; rfl) hc
  | (.index i, .dotted), rfl =>
    rw [natText, String.toList_ofList] at hc
    exact Text.isBlank_of_isDigit (Text.isDigit_of_mem_digitsOf (List.mem_of_getLast? hc))

theorem exists_chars_eq (hsteps : steps ≠ []) : ∃ c rest, chars steps = c :: rest ∧ (c = '.' ∨ c = '[') := by
  match steps with
  | .key _ :: _ => exact ⟨_, _, rfl, .inl rfl⟩
  | .index _ :: _ => exact ⟨_, _, rfl, .inr rfl⟩

/-- A chain in writing ends with its last key, the backslashes apart, or with a bracket. -/
theorem isBlank_of_getLast?_chars (hsteps : steps ≠ []) (hwritable : ∀ s ∈ steps, s.IsWritable)
    (hvisible : EndsVisibly steps) {c : Char} (hc : (chars steps).getLast? = some c) : isBlank c = false := by
  obtain ⟨front, last, rfl⟩ : ∃ front last, steps = front ++ [last] :=
    ⟨_, _, (List.dropLast_concat_getLast hsteps).symm⟩
  have hchars : chars (front ++ [last]) = chars front ++ stepChars (last, .bracketed) := by simp [chars]
  rw [hchars] at hc
  cases last with
  | key name =>
    have hname := Step.toList_ne_nil (hwritable (.key name) (by simp))
    cases hd : name.toList.getLast? with
    | none => exact absurd (List.getLast?_eq_none_iff.mp hd) hname
    | some d =>
      obtain rfl : d = c := by
        simpa [stepChars, List.getLast?_append, List.getLast?_cons, getLast?_escapedKey, hd] using hc
      exact hvisible name d (by simp) hd
  | index i =>
    obtain rfl : ']' = c := by simpa [stepChars, List.getLast?_cons] using hc
    decide

theorem between?_cons_concat (opening closing : Char) (cs : List Char) :
    between? opening closing (opening :: (cs ++ [closing])) = some cs := by
  simp [between?]

/-- Braces and a dollar sign are taken off. -/
theorem body_spelling {path : String} (hpath : path.toList = chars steps) (hsteps : steps ≠ [])
    (hwritable : ∀ s ∈ steps, s.IsWritable) (hvisible : EndsVisibly steps) :
    ∀ raw ∈ spellings path, body raw.toList = chars steps := by
  obtain ⟨first, rest, hchars, hfirst⟩ := exists_chars_eq hsteps
  have hlast : ∀ c, (first :: rest).getLast? = some c → isBlank c = false := fun c hc =>
    isBlank_of_getLast?_chars hsteps hwritable hvisible (hchars ▸ hc)
  have hunblank : isBlank first = false := by rcases hfirst with rfl | rfl <;> decide
  have htrim : trim (first :: rest) = first :: rest := Text.trim_eq_self (by simpa using hunblank) hlast
  have hdollar : trim ('$' :: first :: rest) = '$' :: first :: rest :=
    Text.trim_eq_self (by simp; decide) (by simpa [List.getLast?_cons] using hlast)
  have hbraces : trim ('\x7b' :: (first :: rest ++ ['\x7d'])) = '\x7b' :: (first :: rest ++ ['\x7d']) :=
    Text.trim_eq_self (by simp; decide) (by simp [List.getLast?_cons]; decide)
  have hplain : first ≠ '\x7b' ∧ first ≠ '$' := by rcases hfirst with rfl | rfl <;> decide
  simp only [spellings, List.forall_mem_cons]
  refine ⟨?_, ?_, ?_, by simp⟩
  · rw [hpath, hchars, body, htrim]
    simp [between?, hplain]
  · have hraw : ("$" ++ path).toList = '$' :: first :: rest := by simp [hpath, hchars]
    rw [hraw, hchars, body, hdollar]
    simp [between?]
  · have hraw : ("\x7b" ++ path ++ "\x7d").toList = '\x7b' :: (first :: rest ++ ['\x7d']) := by simp [hpath, hchars]
    rw [hraw, hchars, body, hbraces, between?_cons_concat]
    simp [htrim, hplain]

/-- What is left of a path is read as its steps. -/
theorem parse_of_scan (hscan : scan raw (.word [] false) [] (body raw.toList) = .ok steps) (hsteps : steps ≠ []) :
    parse raw = .ok ⟨raw, steps⟩ := by
  unfold parse
  split
  · rename_i hbody
    rw [hbody] at hscan
    exact absurd (Except.ok.inj hscan).symm hsteps
  · rename_i hbody
    rw [hbody] at hscan
    cases hscan
  · rw [hscan]
    cases steps with
    | nil => exact absurd rfl hsteps
    | cons s rest => rfl

/-- Whatever way a chain is spelled, it is read as the same steps. -/
theorem parse_spelling {steps : List (Step × IndexStyle)} (hsteps : steps ≠ []) (hwritable : ∀ s ∈ steps, s.1.IsWritable)
    (hvisible : EndsVisibly (steps.map (·.1))) :
    ∀ raw ∈ spellings (written steps), parse raw = .ok ⟨raw, steps.map readAs⟩ := by
  have hread : ∀ s ∈ steps.map readAs, s.IsWritable :=
    List.forall_mem_map.mpr fun s hs => isWritable_readAs (hwritable s hs)
  have hnonempty : steps.map readAs ≠ [] := by simpa using hsteps
  intro raw hraw
  refine parse_of_scan ?_ hnonempty
  rw [body_spelling (toList_written steps) hnonempty hread hvisible.readAs raw hraw, scan_chars hread]
  rfl

/-- Every chain of steps that leads to a place of a document can be written down, with its indexes in brackets or after
dots, and what is written leads to that place, or nowhere if the place holds null. It can be written after a dollar sign
or in braces as well, and is read as the same steps. -/
theorem every_place_is_addressable (doc v : Json) (steps : List (Step × IndexStyle)) (hsteps : steps ≠ [])
    (hleads : Leads (steps.map (·.1)) doc v) (hvisible : EndsVisibly (steps.map (·.1))) :
    ∀ raw ∈ spellings (written steps),
      parse raw = .ok ⟨raw, steps.map readAs⟩ ∧ lookup? doc raw = if v.isNull then none else some v := by
  intro raw hraw
  have hparse := parse_spelling hsteps (List.forall_mem_map.mp hleads.isWritable) hvisible raw hraw
  refine ⟨hparse, ?_⟩
  simp only [lookup?, hparse, resolve?, hleads.follow?]
  cases hnull : v.isNull <;> simp [hnull]

/-- A document whose keys are made of what paths are made of. -/
def awkward : Json := .object [("a.b ", .array [.null, .object [("$['0']\\", .bool true)]])]

/-- In braces to a truth value, and after a dollar sign to a null. -/
theorem lookup?_awkward :
    lookup? awkward "\x7b.a\\.b .1.$\\['0']\\\\\x7d" = some (.bool true) ∧ lookup? awkward "$.a\\.b [0]" = none := by
  have hfirst : (Step.key "a.b ").IsWritable := by simp [Step.IsWritable]
  have hlast : (Step.key "$['0']\\").IsWritable := by simp [Step.IsWritable]
  have hitem (i : Nat) (hi : i < 2) : (Step.index i).IsWritable := Nat.le_trans (Nat.le_of_lt hi) (by decide)
  refine ⟨?_, ?_⟩
  · have hleads : Leads [.key "a.b ", .index 1, .key "$['0']\\"] awkward (.bool true) :=
      .step (.key hfirst rfl) (.step (.index (hitem 1 (by decide)) rfl) (.step (.key hlast rfl) (.here _)))
    have hvisible : EndsVisibly [.key "a.b ", .index 1, .key "$['0']\\"] := by
      rintro name c hkey hc
      obtain rfl : "$['0']\\" = name := by simpa using hkey
      obtain rfl : '\\' = c := by simpa using hc
      decide
    exact (every_place_is_addressable awkward _
      [(.key "a.b ", .bracketed), (.index 1, .dotted), (.key "$['0']\\", .bracketed)] (by simp) hleads
      hvisible _ (by decide +kernel)).2
  · have hleads : Leads [.key "a.b ", .index 0] awkward .null :=
      .step (.key hfirst rfl) (.step (.index (hitem 0 (by decide)) rfl) (.here _))
    exact (every_place_is_addressable awkward _ [(.key "a.b ", .bracketed), (.index 0, .bracketed)] (by simp) hleads
      (by simp [EndsVisibly]) _ (by decide +kernel)).2

end Path

end Reaper
