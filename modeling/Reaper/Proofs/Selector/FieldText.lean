import Reaper.Proofs.Selector.Fields

/-!
# Field selectors, written and read

The terms that a watch sends are written one after the other, `FieldSelector.text`, and the API server reads them by the
grammar of `FieldQuery`. Values are written as they are, although three characters have a meaning of their own there.
This module shows when the terms that are read are the terms that are meant: exactly when no value holds one of the
three (`FieldSelector.exists_query_iff`).

One direction is a round trip along the parts of the text (`read?_text`). The other one compares lengths. The reader
makes nothing longer, and each of the three characters costs at least one: a comma ends the value, an equals sign at the
front belongs to the sign and elsewhere is refused, a backslash is dropped for the character after it. So a value with
one of them is not read as itself (`length_of_unescape?`), and the resource is known to have the value itself.
-/

namespace Reaper

namespace FieldQuery

/-- A text that stands for itself in a value. -/
def IsLiteral (s : String) : Prop := ∀ c ∈ s.toList, isSpecial c = false

instance (s : String) : Decidable (IsLiteral s) :=
  decidable_of_iff (s.toList.all (fun c => !isSpecial c) = true) (by simp [IsLiteral])

theorem ne_of_isSpecial {c : Char} (h : isSpecial c = false) : c ≠ ',' ∧ c ≠ '\\' := by
  constructor <;> (rintro rfl; simp [isSpecial] at h)

/-- A part without commas and backslashes ends where a comma comes, or the text ends. -/
theorem parts_append (part rest current : List Char) (h : ∀ c ∈ part, c ≠ ',' ∧ c ≠ '\\') :
    parts current (part ++ rest) = parts (current ++ part) rest := by
  induction part generalizing current with
  | nil => simp
  | cons c cs ih =>
    have hc := h c (by simp)
    rw [List.cons_append, parts]
    · rw [if_neg hc.1, ih _ fun d hd => h d (by simp [hd])]
      simp
    · rintro d r rfl -
      exact hc.2 rfl

theorem parts_joined (ps : List (List Char)) (hne : ps ≠ []) (h : ∀ p ∈ ps, ∀ c ∈ p, c ≠ ',' ∧ c ≠ '\\') :
    parts [] ([','].intercalate ps) = ps := by
  induction ps with
  | nil => exact absurd rfl hne
  | cons p ps ih =>
    have hp := h p (by simp)
    cases ps with
    | nil => simpa [parts] using parts_append p [] [] hp
    | cons q qs =>
      have hrest := ih (by simp) fun r hr => h r (by simp [hr])
      rw [List.intercalate_cons_cons, List.append_assoc, parts_append p _ [] hp]
      simp [parts, hrest]

/-- What follows a sign, which may be written with two characters. -/
def afterSign : List Char → List Char
  | '=' :: rest => rest
  | cs => cs

theorem afterSign_of_ne {cs : List Char} (h : ∀ rest, cs ≠ '=' :: rest) : afterSign cs = cs := by
  rw [afterSign]
  exact h

theorem sign?_field (field value before : List Char) (h : ∀ c ∈ field, c ≠ '=' ∧ c ≠ '!') :
    sign? before (field ++ '=' :: value) = some (before ++ field, true, afterSign value) := by
  induction field generalizing before with
  | nil =>
    by_cases hsign : ∃ rest, value = '=' :: rest
    · obtain ⟨rest, rfl⟩ := hsign
      simp [sign?, afterSign]
    · rw [List.nil_append, sign?, afterSign_of_ne fun rest heq => hsign ⟨rest, heq⟩]
      · simp
      · simp
      · exact fun rest _ heq => hsign ⟨rest, heq⟩
  | cons c cs ih =>
    have hc := h c (by simp)
    rw [List.cons_append, sign?]
    · rw [if_neg hc.1, ih _ fun d hd => h d (by simp [hd])]
      simp
    · rintro r rfl -
      exact hc.2 rfl
    · rintro r rfl -
      exact hc.1 rfl

theorem afterSign_literal (value : List Char) (h : ∀ c ∈ value, isSpecial c = false) : afterSign value = value := by
  refine afterSign_of_ne ?_
  rintro rest rfl
  simp [isSpecial] at h

theorem unescape?_cons {c : Char} (h : isSpecial c = false) (rest : List Char) :
    unescape? (c :: rest) = (unescape? rest).map (c :: ·) := by
  rw [unescape?]
  · simp [h]
  · rintro d r rfl -
    simp [isSpecial] at h

theorem unescape?_literal (value : List Char) (h : ∀ c ∈ value, isSpecial c = false) :
    unescape? value = some value := by
  induction value with
  | nil => rfl
  | cons c cs ih => rw [unescape?_cons (h c (by simp)), ih fun d hd => h d (by simp [hd]), Option.map_some]

end FieldQuery

namespace FieldSelector

open FieldQuery

/-- The written form of a term. -/
def part (t : String × String) : List Char := t.1.toList ++ '=' :: t.2.toList

theorem field_chars {field : String} (h : field ∈ serverFields) :
    ∀ c ∈ field.toList, c ≠ '=' ∧ c ≠ '!' ∧ c ≠ ',' ∧ c ≠ '\\' := by
  have hall : (field.toList.all fun c => c != '=' && c != '!' && c != ',' && c != '\\') = true := by
    obtain ⟨key, rfl | rfl, rfl⟩ := mem_serverFields h <;> decide
  intro c hc
  have := List.all_eq_true.mp hall c hc
  simp_all

theorem term?_field {field : String} (hfield : field ∈ serverFields) (written : List Char) :
    term? (field.toList ++ '=' :: written) =
      (unescape? (afterSign written)).map fun v => .equals field (String.ofList v) := by
  have hsign := sign?_field field.toList written [] fun c hc =>
    ⟨(field_chars hfield c hc).1, (field_chars hfield c hc).2.1⟩
  cases h : unescape? (afterSign written) <;> simp [term?, hsign, h]

theorem term?_part {t : String × String} (hfield : t.1 ∈ serverFields) (hvalue : IsLiteral t.2) :
    term? (part t) = some (.equals t.1 t.2) := by
  rw [part, term?_field hfield, afterSign_literal _ hvalue, unescape?_literal _ hvalue]
  simp

theorem part_chars {t : String × String} (hfield : t.1 ∈ serverFields) (hvalue : IsLiteral t.2) :
    ∀ c ∈ part t, c ≠ ',' ∧ c ≠ '\\' := by
  intro c hc
  rcases List.mem_append.mp hc with hc | hc
  · exact (field_chars hfield c hc).2.2
  · rcases List.mem_cons.mp hc with rfl | hc
    · decide
    · exact ne_of_isSpecial (hvalue c hc)

theorem mapM_term?_parts (ts : List (String × String)) (h : ∀ t ∈ ts, t.1 ∈ serverFields ∧ IsLiteral t.2) :
    (ts.map part).mapM term? = some (ts.map fun t => .equals t.1 t.2) := by
  induction ts with
  | nil => rfl
  | cons t ts ih =>
    have ht := h t (by simp)
    rw [List.map_cons, List.mapM_cons, term?_part ht.1 ht.2, ih fun u hu => h u (by simp [hu])]
    rfl

theorem text_toList (s : FieldSelector) : s.text.toList = [','].intercalate (s.terms.map part) := by
  have hpart (t : String × String) : (t.1 ++ "=" ++ t.2).toList = part t := by simp [part]
  simp only [text_eq, String.toList_intercalate, List.map_map, Function.comp_def, hpart]
  rfl

/-- When its values stand for themselves, what is sent is read as the terms that are meant. -/
theorem read?_text {s : FieldSelector} (h : ∀ t ∈ s.terms, IsLiteral t.2) :
    read? s.text = some (s.terms.map fun t => .equals t.1 t.2) := by
  have hterms : ∀ t ∈ s.terms, t.1 ∈ serverFields ∧ IsLiteral t.2 := fun t ht => ⟨(mem_terms ht).1, h t ht⟩
  have hnil : ∀ p ∈ s.terms.map part, p ≠ [] := by
    intro p hp
    obtain ⟨t, -, rfl⟩ := List.mem_map.mp hp
    simp [part]
  have hparts : (parts [] s.text.toList).filter (· ≠ []) = s.terms.map part := by
    by_cases hts : s.terms.map part = []
    · rw [text_toList, hts]
      rfl
    · rw [text_toList, parts_joined _ hts]
      · simpa using hnil
      · intro p hp
        obtain ⟨t, ht, rfl⟩ := List.mem_map.mp hp
        exact part_chars (hterms t ht).1 (hterms t ht).2
  rw [read?, hparts, mapM_term?_parts _ hterms]

end FieldSelector

/-! ## Values that are not read as they are meant -/

namespace FieldQuery

/-- The first part of a text, a comma after a backslash being part of it. -/
def firstPart : List Char → List Char
  | [] => []
  | '\\' :: c :: rest => '\\' :: c :: firstPart rest
  | c :: rest => if c = ',' then [] else c :: firstPart rest

theorem parts_eq_firstPart (cs current : List Char) : ∃ more, parts current cs = (current ++ firstPart cs) :: more := by
  fun_induction firstPart cs generalizing current with
  | case1 => exact ⟨[], by simp [parts]⟩
  | case2 c rest ih =>
    obtain ⟨more, h⟩ := ih (current ++ ['\\', c])
    exact ⟨more, by simp [parts, h]⟩
  | case3 rest => exact ⟨parts [] rest, by simp [parts]⟩
  | case4 c rest hescape hc ih =>
    obtain ⟨more, h⟩ := ih (current ++ [c])
    refine ⟨more, ?_⟩
    rw [parts]
    · simp [hc, h]
    · exact hescape

/-- What may follow a value: nothing, or a comma and a field with its sign. -/
def IsContinuation (cs : List Char) : Prop :=
  cs = [] ∨ ∃ field rest, cs = ',' :: (field ++ '=' :: rest) ∧ ∀ c ∈ field, isSpecial c = false

theorem firstPart_cons {c : Char} (h : c ≠ ',' ∧ c ≠ '\\') (rest : List Char) :
    firstPart (c :: rest) = c :: firstPart rest := by
  rw [firstPart]
  · exact if_neg h.1
  · rintro d r rfl -
    exact h.2 rfl

theorem firstPart_append (part rest : List Char) (h : ∀ c ∈ part, c ≠ ',' ∧ c ≠ '\\') :
    firstPart (part ++ rest) = part ++ firstPart rest := by
  induction part with
  | nil => rfl
  | cons c cs ih =>
    rw [List.cons_append, firstPart_cons (h c (by simp)), ih fun d hd => h d (by simp [hd]), List.cons_append]

theorem unescape?_field (field rest : List Char) (h : ∀ c ∈ field, isSpecial c = false) :
    unescape? (firstPart (field ++ '=' :: rest)) = none := by
  induction field with
  | nil => simp [firstPart, unescape?, isSpecial]
  | cons c cs ih =>
    have hc := h c (by simp)
    rw [List.cons_append, firstPart_cons (ne_of_isSpecial hc), unescape?_cons hc, ih fun d hd => h d (by simp [hd]),
      Option.map_none]

/-- The value that is read is no longer than the one that was sent, and shorter when that did not stand for itself. -/
theorem length_of_unescape? (value after : List Char) (hafter : IsContinuation after) {read : List Char}
    (h : unescape? (firstPart (value ++ after)) = some read) :
    read.length ≤ value.length ∧ (read.length = value.length → ∀ c ∈ value, isSpecial c = false) := by
  fun_induction firstPart value generalizing read with
  | case1 =>
    have hnil : firstPart after = [] := by
      rcases hafter with rfl | ⟨field, rest, rfl, -⟩ <;> simp [firstPart]
    rw [List.nil_append, hnil, unescape?] at h
    cases h
    simp
  | case2 c rest ih =>
    simp only [List.cons_append, firstPart, unescape?] at h
    split at h
    · obtain ⟨tail, htail, rfl⟩ := Option.map_eq_some_iff.mp h
      have := (ih htail).1
      simp only [List.length_cons]
      exact ⟨by omega, fun heq => absurd heq (by omega)⟩
    · simp at h
  | case3 rest =>
    have hempty : firstPart (',' :: rest ++ after) = [] := rfl
    rw [hempty, unescape?] at h
    cases h
    simp
  | case4 c rest hescape hc ih =>
    by_cases hback : c = '\\'
    · -- a backslash at the end of the value takes the comma, so that the next field's sign has none before it
      obtain rfl : rest = [] := by
        cases rest with
        | nil => rfl
        | cons d r => exact absurd rfl (hescape d r hback)
      subst hback
      rcases hafter with rfl | ⟨field, more, rfl, hfield⟩
      · simp [firstPart, unescape?, isSpecial] at h
      · simp [firstPart, unescape?, unescape?_field field more hfield] at h
    · rw [List.cons_append, firstPart_cons ⟨hc, hback⟩] at h
      cases hspecial : isSpecial c with
      | true =>
        obtain rfl : c = '=' := by simpa [isSpecial, hc, hback] using hspecial
        simp [unescape?, isSpecial] at h
      | false =>
        rw [unescape?_cons hspecial] at h
        obtain ⟨tail, htail, rfl⟩ := Option.map_eq_some_iff.mp h
        obtain ⟨hle, hliteral⟩ := ih htail
        simp only [List.length_cons]
        refine ⟨by omega, fun heq d hd => ?_⟩
        rcases List.mem_cons.mp hd with rfl | hd
        · exact hspecial
        · exact hliteral (by omega) d hd

theorem length_of_unescape?_afterSign (value after : List Char) (hafter : IsContinuation after) {read : List Char}
    (h : unescape? (afterSign (firstPart (value ++ after))) = some read) :
    read.length ≤ value.length ∧ (read.length = value.length → ∀ c ∈ value, isSpecial c = false) := by
  by_cases hsign : ∃ rest, value = '=' :: rest
  · obtain ⟨rest, rfl⟩ := hsign
    have hle := (length_of_unescape? rest after hafter (by simpa [firstPart, afterSign] using h)).1
    simp only [List.length_cons]
    exact ⟨by omega, fun heq => absurd heq (by omega)⟩
  · have hhead : ∀ rest, firstPart (value ++ after) ≠ '=' :: rest := by
      intro rest heq
      cases value with
      | nil => rcases hafter with rfl | ⟨field, more, rfl, -⟩ <;> simp [firstPart] at heq
      | cons c cs =>
        have hc : c ≠ '=' := by rintro rfl; exact hsign ⟨cs, rfl⟩
        rw [List.cons_append] at heq
        unfold firstPart at heq
        split at heq <;> grind
    exact length_of_unescape? value after hafter (afterSign_of_ne hhead ▸ h)

end FieldQuery

namespace FieldSelector

open FieldQuery

theorem firstPart_part {t : String × String} (hfield : t.1 ∈ serverFields) (after : List Char) :
    firstPart (part t ++ after) = t.1.toList ++ '=' :: firstPart (t.2.toList ++ after) := by
  have hsplit : part t ++ after = (t.1.toList ++ ['=']) ++ (t.2.toList ++ after) := by simp [part]
  rw [hsplit, firstPart_append]
  · simp
  · intro c hc
    rcases List.mem_append.mp hc with hc | hc
    · exact (field_chars hfield c hc).2.2
    · obtain rfl : c = '=' := by simpa using hc
      decide

/-- Of a query that holds the first part is read as a term that holds, and the other parts as a query that holds. -/
theorem exists_of_mapM_cons {p : List Char} {ps : List (List Char)} {q : List FieldTerm} {r : Resource}
    (hq : (p :: ps).mapM term? = some q) (hholds : FieldQuery.holds q r = true) :
    (∃ v, term? p = some v ∧ v.holds r = true) ∧
      ∃ rest, ps.mapM term? = some rest ∧ FieldQuery.holds rest r = true := by
  simp only [List.mapM_cons, Option.bind_eq_bind, Option.bind_eq_some_iff] at hq
  obtain ⟨v, hv, rest, hrest, heq⟩ := hq
  cases heq
  simp only [FieldQuery.holds, List.all_cons, Bool.and_eq_true] at hholds
  exact ⟨⟨v, hv, hholds.1⟩, rest, hrest, hholds.2⟩

/-- The first term stands for itself when the text is read as a query that holds of the resource. -/
theorem isLiteral_of_first {t : String × String} (hfield : t.1 ∈ serverFields) {after : List Char}
    (hafter : IsContinuation after) {q : List FieldTerm} {r : Resource} (hr : r.serverField? t.1 = some t.2)
    (hq : ((parts [] (part t ++ after)).filter (· ≠ [])).mapM term? = some q)
    (hholds : FieldQuery.holds q r = true) : IsLiteral t.2 := by
  obtain ⟨more, hparts⟩ := parts_eq_firstPart (part t ++ after) []
  have hne : firstPart (part t ++ after) ≠ [] := by simp [firstPart_part hfield]
  rw [hparts, List.nil_append, List.filter_cons_of_pos (by simpa using hne)] at hq
  obtain ⟨⟨v, hv, hterm⟩, -⟩ := exists_of_mapM_cons hq hholds
  rw [firstPart_part hfield, term?_field hfield] at hv
  obtain ⟨read, hread, rfl⟩ := Option.map_eq_some_iff.mp hv
  have heq : t.2 = String.ofList read := by simpa [FieldTerm.holds, hr] using hterm
  have hlen : read.length = t.2.toList.length := by rw [heq, String.toList_ofList]
  exact (length_of_unescape?_afterSign _ after hafter hread).2 hlen

/-- The characters after the first term: none, or a comma and the other terms. -/
theorem isContinuation_parts (u : String × String) (us : List (String × String)) (hfield : u.1 ∈ serverFields) :
    IsContinuation (',' :: [','].intercalate ((u :: us).map part)) := by
  have hchars : ∀ c ∈ u.1.toList, isSpecial c = false := by
    intro c hc
    have := field_chars hfield c hc
    simp [isSpecial, this]
  cases us with
  | nil => exact .inr ⟨u.1.toList, u.2.toList, by simp [part], hchars⟩
  | cons w ws => exact .inr ⟨u.1.toList, u.2.toList ++ ',' :: [','].intercalate ((w :: ws).map part),
      by simp [part], hchars⟩

/-- By induction on the terms: as long as the first one stands for itself, the others are read after its comma. -/
theorem isLiteral_of_mapM {r : Resource} (ts : List (String × String))
    (hts : ∀ t ∈ ts, t.1 ∈ serverFields ∧ r.serverField? t.1 = some t.2) {q : List FieldTerm}
    (hq : ((parts [] ([','].intercalate (ts.map part))).filter (· ≠ [])).mapM term? = some q)
    (hholds : FieldQuery.holds q r = true) : ∀ t ∈ ts, IsLiteral t.2 := by
  induction ts generalizing q with
  | nil => simp
  | cons t us ih =>
    obtain ⟨hfield, hr⟩ := hts t (by simp)
    cases us with
    | nil =>
      have hliteral : IsLiteral t.2 :=
        isLiteral_of_first hfield (.inl rfl : IsContinuation []) hr (by simpa using hq) hholds
      simpa using hliteral
    | cons u us =>
      have hjoin : [','].intercalate ((t :: u :: us).map part) =
          part t ++ ',' :: [','].intercalate ((u :: us).map part) := by
        simp
      rw [hjoin] at hq
      have hliteral : IsLiteral t.2 :=
        isLiteral_of_first hfield (isContinuation_parts u us (hts u (by simp)).1) hr hq hholds
      have hparts : (parts [] (part t ++ ',' :: [','].intercalate ((u :: us).map part))).filter (· ≠ []) =
          part t :: (parts [] ([','].intercalate ((u :: us).map part))).filter (· ≠ []) := by
        rw [parts_append _ _ _ (part_chars hfield hliteral)]
        simp [parts, part]
      rw [hparts] at hq
      obtain ⟨-, rest, hrest, hothers⟩ := exists_of_mapM_cons hq hholds
      intro w hw
      rcases List.mem_cons.mp hw with rfl | hw
      · exact hliteral
      · exact ih (fun x hx => hts x (by simp [hx])) hrest hothers w hw

/-- Of a resource that meets the terms meant, what is read holds only if the values stand for themselves. -/
theorem exists_query_iff {s : FieldSelector} {r : Resource} (hr : ∀ t ∈ s.terms, r.serverField? t.1 = some t.2) :
    (∃ q, read? s.text = some q ∧ FieldQuery.holds q r = true) ↔ ∀ t ∈ s.terms, IsLiteral t.2 := by
  constructor
  · rintro ⟨q, hq, hholds⟩
    rw [read?, text_toList] at hq
    exact isLiteral_of_mapM s.terms (fun t ht => ⟨(mem_terms ht).1, hr t ht⟩) hq hholds
  · intro hliteral
    refine ⟨_, read?_text hliteral, ?_⟩
    simpa [FieldQuery.holds, FieldTerm.holds] using hr

end FieldSelector

end Reaper
