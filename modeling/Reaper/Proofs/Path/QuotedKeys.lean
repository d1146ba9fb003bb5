import Reaper.Proofs.Path.Prefixes

/-!
# Keys in quotes

After a prefix, a key may stand in quotes in brackets (`withQuoted`), or after a dot with its special characters escaped
(`withDotted`). In brackets nothing is escaped, and the first closing bracket ends the step, in quotes or not. So a key
with a closing bracket is read as more than one step (`length_of_scan_withQuoted`), where the path with the dot has one
(`exists_parse_withDotted`). And where a prefix opens a brace, a key after a dot may close it, which a key in quotes never
does (`getLast?_ne_of_closesBrace`). Apart from these the two ways of writing a key are read as the same steps
(`quoted_agrees_with_dotted`).

To tell paths apart there are documents with a single place (`placed`): a path that leads to it has as many steps, and the
same key at the end.

  §1 Documents — what leads to a single place.
  §2 Spellings — the characters after the prefix.
  §3 Readings  — the path as a whole.
-/

namespace Reaper.Path

open Text (isBlank trim trimEnd)

variable {raw p k : String} {step : Step} {steps found : List Step} {doc node : Json}

/-! ## §1 Documents -/

/-- A document that has only the place that steps lead to, with `true` in it. -/
def placed : List Step → Json
  | [] => .bool true
  | .key name :: rest => .object [(name, placed rest)]
  | .index i :: rest => .array (List.replicate i .null ++ [placed rest])

theorem follow?_placed (steps : List Step) : follow? steps (placed steps) = some (.bool true) := by
  induction steps with
  | nil => rfl
  | cons s rest ih =>
    cases s with
    | key name => simp [follow?, Step.follow?, placed, Dictionary.lookup, ih]
    | index i => simp [follow?, Step.follow?, placed, ih]

theorem follow?_null (steps : List Step) : follow? steps .null ≠ some (.bool true) := by
  cases steps with
  | nil => simp [follow?]
  | cons s rest => cases s <;> simp [follow?, Step.follow?]

/-- A step leads on toward the place, by its key if it has one, or to null beside it. -/
theorem eq_placed_of_follow? {s : Step} {rest : List Step} (h : step.follow? (placed (s :: rest)) = some node) :
    node = placed rest ∧ (∀ name, s = .key name → step = .key name) ∨ node = .null := by
  cases s with
  | key name =>
    cases step with
    | key other =>
      simp only [Step.follow?, placed, Dictionary.lookup] at h
      split at h
      · rename_i hname
        subst hname
        exact .inl ⟨(Option.some.inj h).symm, fun _ hkey => hkey⟩
      · cases h
    | index i => cases h
  | index i =>
    have hmem : node ∈ List.replicate i Json.null ++ [placed rest] := by
      cases step with
      | key name =>
        obtain ⟨n, -, hn⟩ := Option.bind_eq_some_iff.mp h
        exact List.mem_of_getElem? hn
      | index n => exact List.mem_of_getElem? h
    rcases List.mem_append.mp hmem with hnull | hitem
    · exact .inr (List.mem_replicate.mp hnull).2
    · exact .inl ⟨List.mem_singleton.mp hitem, fun _ hkey => Step.noConfusion hkey⟩

/-- No more and no fewer steps lead to the place, and if it has a key, the last of them is the key. -/
theorem of_follow?_placed (h : follow? found (placed steps) = some (.bool true)) :
    found.length = steps.length ∧ ∀ name, steps.getLast? = some (.key name) → found.getLast? = some (.key name) := by
  induction steps generalizing found with
  | nil =>
    cases found with
    | nil => simp
    | cons s rest => cases s <;> simp [follow?, Step.follow?, placed] at h
  | cons s rest ih =>
    cases found with
    | nil => cases s <;> simp [follow?, placed] at h
    | cons t found =>
      obtain ⟨node, hnode, hrest⟩ := Option.bind_eq_some_iff.mp h
      obtain ⟨rfl, hkey⟩ | rfl := eq_placed_of_follow? hnode
      · obtain ⟨hlength, hlast⟩ := ih hrest
        refine ⟨by simp [hlength], fun name hname => ?_⟩
        cases rest with
        | nil =>
          obtain rfl := List.length_eq_zero_iff.mp hlength
          simpa using hkey name (by simpa using hname)
        | cons u more =>
          rw [List.getLast?_cons_cons] at hname
          rw [List.getLast?_cons, hlast name hname, Option.getD_some]
      · exact absurd hrest (follow?_null found)

/-- A path that is read leads where its steps lead. -/
theorem lookup?_of_parse (h : parse raw = .ok ⟨raw, steps⟩) :
    lookup? doc raw = (follow? steps doc).filter (!·.isNull) := by
  rw [lookup?, h]
  rfl

theorem lookup?_placed (h : parse raw = .ok ⟨raw, steps⟩) : lookup? (placed steps) raw = some (.bool true) := by
  rw [lookup?_of_parse h, follow?_placed]
  rfl

/-- Only a path of as many steps leads to the place, and one with the same key at its end. -/
theorem of_lookup?_placed (h : lookup? (placed steps) raw = some (.bool true)) :
    ∃ found, scan raw (.word [] false) [] (body raw.toList) = .ok found ∧ found.length = steps.length ∧
      ∀ name, steps.getLast? = some (.key name) → found.getLast? = some (.key name) := by
  unfold lookup? at h
  split at h
  · rename_i path hparse
    exact ⟨path.steps, scan_of_parse hparse, of_follow?_placed (Option.filter_eq_some_iff.mp h).1⟩
  · cases h

/-! ## §2 Spellings -/

/-- A path and a key in quotes after it. -/
def withQuoted (p k : String) : String := p ++ String.ofList (quotedKey k)

/-- A path and a key after a dot, with its special characters escaped. -/
def withDotted (p k : String) : String := p ++ written [(.key k, .bracketed)]

theorem toList_withQuoted (p k : String) : (withQuoted p k).toList = p.toList ++ quotedKey k := by simp [withQuoted]

theorem toList_withDotted (p k : String) : (withDotted p k).toList = p.toList ++ '.' :: escapedKey k.toList := by
  simp [withDotted, written, stepChars]

section

variable {current cs : List Char} {done : List Step}

theorem quotedKey_eq (k : String) : quotedKey k = '[' :: '\x27' :: (k.toList ++ ['\x27', ']']) := by simp [quotedKey]

theorem getLast?_quotedKey (k : String) : (quotedKey k).getLast? = some ']' := by simp [quotedKey_eq, List.getLast?_cons]

/-- A key in quotes is read back when it has no closing bracket. -/
theorem scan_quotedKey (hk : ']' ∉ k.toList) :
    scan raw (.word current false) done (quotedKey k) = .ok (flush done current ++ [.key k]) := by
  have hinner : ']' ∉ '\x27' :: (k.toList ++ ['\x27']) := by simpa using hk
  have htrim : trim ('\x27' :: (k.toList ++ ['\x27'])) = '\x27' :: (k.toList ++ ['\x27']) :=
    Text.trim_eq_self (by simp; decide) (by simp [List.getLast?_cons]; decide)
  have hkey : bracketStep ('\x27' :: (k.toList ++ ['\x27'])) = .key k := by
    rw [bracketStep, between?_cons_concat]
    exact congrArg Step.key String.ofList_toList
  have hsplit : '\x27' :: (k.toList ++ ['\x27', ']']) = '\x27' :: (k.toList ++ ['\x27']) ++ [']'] := by simp
  rw [quotedKey_eq, scan, if_neg (by decide), if_neg (by decide), if_pos rfl, hsplit, scan_bracket hinner,
    List.nil_append, htrim, hkey]
  rfl

/-- A closing bracket at the end is part of a last key, or ends a last step. -/
theorem length_lt_of_scan {r : Reader} (h : scan raw r.1 r.2 (cs ++ [']']) = .ok found) : r.2.length < found.length := by
  rw [scan_append] at h
  cases hrun : r.run? cs with
  | none =>
    rw [hrun] at h
    cases h
  | some r' =>
    rw [hrun] at h
    obtain ⟨mode, done⟩ := r'
    have hle : r.2.length ≤ done.length := Reader.length_le_of_run? hrun
    cases mode <;> cases h <;> simp [flush] <;> omega

/-- Else the quotes are read as more than one step, if they are read. -/
theorem length_le_of_scan_quotedKey (hk : ']' ∈ k.toList)
    (h : scan raw (.word current false) done (quotedKey k) = .ok found) :
    (flush done current).length + 2 ≤ found.length := by
  obtain ⟨front, back, hsplit, hfront⟩ := List.eq_append_cons_of_mem hk
  have hinner : ']' ∉ '\x27' :: front := by simpa using hfront
  have hchars : quotedKey k = '[' :: ('\x27' :: front ++ ']' :: (back ++ ['\x27'] ++ [']'])) := by
    simp [quotedKey_eq, hsplit]
  rw [hchars, scan, if_neg (by decide), if_neg (by decide), if_pos rfl, scan_bracket hinner] at h
  have hlt := length_lt_of_scan (r := (.word [] false, _)) h
  simp only [List.length_append, List.length_singleton] at hlt
  omega

theorem escapedKey_append (cs ds : List Char) : escapedKey (cs ++ ds) = escapedKey cs ++ escapedKey ds :=
  List.flatMap_append

theorem trimEnd_escapedKey (cs : List Char) : trimEnd (escapedKey cs) = escapedKey (trimEnd cs) := by
  induction cs with
  | nil => rfl
  | cons c rest ih =>
    rw [escapedKey_cons]
    cases hspecial : isSpecial c with
    | true =>
      have hc : isBlank c = false := isBlank_of_isSpecial hspecial
      have hrest : trimEnd (c :: rest) = c :: trimEnd rest := Text.trimEnd_append_cons [] hc rest
      rw [hrest, escapedKey_cons, hspecial, ← ih]
      exact Text.trimEnd_append_cons ['\\'] hc _
    | false =>
      rw [if_neg (by simp), List.singleton_append, trimEnd, ih, trimEnd]
      cases trimEnd rest with
      | nil => cases isBlank c <;> simp [escapedKey, hspecial]
      | cons d ds => cases hd : isSpecial d <;> simp [escapedKey_cons, hspecial, hd]

end

/-! ## §3 Readings -/

theorem body_withQuoted (p k : String) : body (withQuoted p k).toList = opening p.toList ++ quotedKey k := by
  rw [toList_withQuoted]
  exact body_append (.inr (by rw [quotedKey_eq]; rfl)) (getLast?_quotedKey k) (by decide) fun h => absurd h.2 (by decide)

theorem parse_withQuoted (h : BeginsAs (opening p.toList) steps) (hk : ']' ∉ k.toList) :
    parse (withQuoted p k) = .ok ⟨withQuoted p k, steps ++ [.key k]⟩ := by
  refine parse_of_scan ?_ (by simp)
  obtain ⟨current, done, rfl, hscan⟩ := h.scan_append (withQuoted p k) (quotedKey k)
  rw [body_withQuoted, hscan, scan_quotedKey hk]

theorem length_of_scan_withQuoted (h : BeginsAs (opening p.toList) steps) (hk : ']' ∈ k.toList)
    (hscan : scan raw (.word [] false) [] (body (withQuoted p k).toList) = .ok found) : steps.length + 2 ≤ found.length := by
  obtain ⟨current, done, rfl, heq⟩ := h.scan_append raw (quotedKey k)
  rw [body_withQuoted, heq] at hscan
  exact length_le_of_scan_quotedKey hk hscan

/-- A brace at the end of the key closes one at the start of the path. -/
def ClosesBrace (p k : String) : Prop := OpensBrace p ∧ k.toList.getLast? = some '\x7d'

theorem BeginsAs.scan_dot {cs : List Char} (h : BeginsAs cs steps) (raw : String) (hk : (Step.key k).IsWritable) :
    scan raw (.word [] false) [] (cs ++ '.' :: escapedKey k.toList) = .ok (steps ++ [.key k]) := by
  obtain ⟨current, done, rfl, hscan⟩ := h.scan_append raw ('.' :: escapedKey k.toList)
  have hchars : '.' :: escapedKey k.toList = chars [.key k] := by simp [chars, stepChars]
  rw [hscan, hchars, scan_chars (by simpa using hk)]

theorem parse_withDotted (h : BeginsAs (opening p.toList) steps) (hk : (Step.key k).IsWritable)
    (hvisible : EndsVisibly [.key k]) (hopen : ¬ ClosesBrace p k) :
    parse (withDotted p k) = .ok ⟨withDotted p k, steps ++ [.key k]⟩ := by
  refine parse_of_scan ?_ (by simp)
  cases hlast : k.toList.getLast? with
  | none => exact absurd (List.getLast?_eq_none_iff.mp hlast) (Step.toList_ne_nil hk)
  | some last =>
    have hbody : body (withDotted p k).toList = opening p.toList ++ '.' :: escapedKey k.toList := by
      rw [toList_withDotted]
      refine body_append (.inl rfl) ?_ (hvisible k last rfl hlast) fun ⟨hbrace, hclose⟩ => hopen ⟨hbrace, hclose ▸ hlast⟩
      simp [List.getLast?_cons, getLast?_escapedKey, hlast]
    rw [hbody, h.scan_dot _ hk]

/-- In braces, the key is read without the closing brace and the blanks before it, if anything is left of it. -/
theorem scan_withDotted_of_closesBrace (h : BeginsAs (opening p.toList) steps) (hclose : ClosesBrace p k) (raw : String) :
    ∃ front before, k.toList = front ++ ['\x7d'] ∧ before.length ≤ steps.length ∧
      scan raw (.word [] false) [] (body (withDotted p k).toList) =
        if trimEnd front = [] then .error (.emptyStep raw) else .ok (before ++ [.key (String.ofList (trimEnd front))]) := by
  obtain ⟨hopen, hlast⟩ := hclose
  obtain ⟨front, hfront⟩ := List.getLast?_eq_some_iff.mp hlast
  obtain ⟨rest, hrest⟩ : ∃ rest, Text.trimStart p.toList = '\x7b' :: rest := List.head?_eq_some_iff.mp hopen
  obtain ⟨before, hbefore, hle⟩ := h.exists_behind_brace hrest
  refine ⟨front, before, hfront, hle, ?_⟩
  have hbody : body (withDotted p k).toList = opening rest ++ '.' :: escapedKey (trimEnd front) := by
    rw [toList_withDotted, hfront, escapedKey_append, ← trimEnd_escapedKey]
    exact body_append_of_wrapped hrest
  rw [hbody]
  split
  · rename_i hnil
    obtain ⟨current, done, -, hscan⟩ := hbefore.scan_append raw ('.' :: escapedKey [])
    rw [hnil, hscan]
    rfl
  · rename_i hne
    have hwritable : (Step.key (String.ofList (trimEnd front))).IsWritable := fun hempty => hne (by simpa using hempty)
    have hscan := hbefore.scan_dot raw hwritable
    rwa [String.toList_ofList] at hscan

/-- However it is read, the path with the dot has only one step more than the prefix. -/
theorem exists_parse_withDotted (h : BeginsAs (opening p.toList) steps) (hk : (Step.key k).IsWritable)
    (hvisible : EndsVisibly [.key k]) (hmem : ']' ∈ k.toList) :
    ∃ found, parse (withDotted p k) = .ok ⟨withDotted p k, found⟩ ∧ found.length ≤ steps.length + 1 := by
  by_cases hclose : ClosesBrace p k
  · obtain ⟨front, before, hfront, hle, hscan⟩ := scan_withDotted_of_closesBrace h hclose (withDotted p k)
    have hkept : trimEnd front ≠ [] := by
      intro hnil
      obtain ⟨blanks, hblanks, hall⟩ := Text.exists_eq_trimEnd_append front
      rw [hnil, List.nil_append] at hall
      have hin : ']' ∈ blanks := by simpa [hfront, ← hall] using hmem
      exact absurd (hblanks _ hin) (by decide)
    rw [if_neg hkept] at hscan
    exact ⟨_, parse_of_scan hscan (by simp), by simpa using hle⟩
  · exact ⟨_, parse_withDotted h hk hvisible hclose, by simp⟩

/-- In braces, its last step is not the key. -/
theorem getLast?_ne_of_closesBrace (h : BeginsAs (opening p.toList) steps) (hclose : ClosesBrace p k)
    (hscan : scan raw (.word [] false) [] (body (withDotted p k).toList) = .ok found) : found.getLast? ≠ some (.key k) := by
  obtain ⟨front, before, hfront, -, hread⟩ := scan_withDotted_of_closesBrace h hclose raw
  rw [hread] at hscan
  split at hscan
  · cases hscan
  · cases hscan
    intro hlast
    have hkey : trimEnd front = front ++ ['\x7d'] := by
      have hname : String.ofList (trimEnd front) = k := by simpa using hlast
      rw [← hfront, ← hname, String.toList_ofList]
    obtain ⟨blanks, -, hall⟩ := Text.exists_eq_trimEnd_append front
    have hlength := congrArg List.length hall
    rw [hkey] at hlength
    simp at hlength

/-- A prefix with a key in quotes looks up what the prefix with the key after a dot looks up, in every document, if the
key has no closing bracket, and the path with the dot is not taken for one in braces. -/
theorem quoted_agrees_with_dotted (p k : String) (hp : IsPrefix p) (hk : (Step.key k).IsWritable)
    (hvisible : EndsVisibly [.key k]) :
    ((∀ doc, lookup? doc (withQuoted p k) = lookup? doc (withDotted p k)) ↔ ']' ∉ k.toList ∧ ¬ ClosesBrace p k) ∧
      (parse (withQuoted "" k) = .ok ⟨withQuoted "" k, [.key k]⟩ ↔ ']' ∉ k.toList) := by
  obtain ⟨steps, hsteps⟩ := hp.exists_beginsAs
  refine ⟨⟨fun hagree => ?_, fun ⟨hbracket, hopen⟩ doc => ?_⟩, fun hparse hmem => ?_, fun hbracket => ?_⟩
  · have hbracket : ']' ∉ k.toList := by
      intro hmem
      obtain ⟨found, hparse, hle⟩ := exists_parse_withDotted hsteps hk hvisible hmem
      obtain ⟨other, hscan, hlength, -⟩ := of_lookup?_placed ((hagree _).trans (lookup?_placed hparse))
      have := length_of_scan_withQuoted hsteps hmem hscan
      omega
    refine ⟨hbracket, fun hclose => ?_⟩
    have hquoted := lookup?_placed (parse_withQuoted hsteps hbracket)
    obtain ⟨found, hscan, -, hlast⟩ := of_lookup?_placed ((hagree _).symm.trans hquoted)
    exact getLast?_ne_of_closesBrace hsteps hclose hscan (hlast k (by simp))
  · rw [lookup?_of_parse (parse_withQuoted hsteps hbracket), lookup?_of_parse (parse_withDotted hsteps hk hvisible hopen)]
  · have := length_of_scan_withQuoted ⟨[], [], rfl, rfl⟩ hmem (scan_of_parse hparse)
    simp at this
  · exact parse_withQuoted (p := "") ⟨[], [], rfl, rfl⟩ hbracket

/-! A key with dots, and one with a closing bracket. -/

/-- A document with a key of two dots, a blank and an opening bracket. -/
def dotDocument : Json := .object [("a", .object [("b", .object [(".x [.", .bool true)])])]

/-- It is found after either of its spellings. -/
theorem lookup?_dotDocument :
    lookup? dotDocument "$.a['b']['.x [.']" = lookup? dotDocument "$.a['b'].\\.x \\[\\." ∧
      lookup? dotDocument "$.a['b']['.x [.']" = some (.bool true) := by
  have hprefix : IsPrefix "$.a['b']" := ⟨.inl ⟨_, rfl⟩, rfl⟩
  have hvisible : EndsVisibly [.key ".x [."] := by
    rintro name c hkey hc
    obtain rfl : ".x [." = name := by simpa using hkey
    obtain rfl : '.' = c := by simpa using hc
    decide
  have hopen : ¬ ClosesBrace "$.a['b']" ".x [." := fun h => absurd h.2 (by decide)
  have hagree := quoted_agrees_with_dotted "$.a['b']" ".x [." hprefix (by simp [Step.IsWritable]) hvisible
  exact ⟨hagree.1.mpr ⟨by decide, hopen⟩ dotDocument, rfl⟩

/-- A document with a closing bracket in its key. -/
def bracketDocument : Json := .object [("a]b", .int 1)]

/-- It is found after a dot, but not in quotes. -/
theorem lookup?_bracketDocument :
    lookup? bracketDocument (withDotted "" "a]b") = some (.int 1) ∧ lookup? bracketDocument (withQuoted "" "a]b") = none ∧
      parse "['a]b']" = .ok ⟨"['a]b']", [.key "'a", .key "b']"]⟩ :=
  ⟨rfl, rfl, rfl⟩

end Reaper.Path
