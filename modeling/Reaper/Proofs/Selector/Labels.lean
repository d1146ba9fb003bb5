import Reaper.Selector.Grammar

/-!
# Label selectors, written and read

A watch sends `LabelSelector.text` and the API server reads it by the grammar of `LabelQuery`. This module shows that the
server then selects what `LabelSelector.holds` selects.

A selector is a list of requirements, `LabelSelector.terms`, and its text is theirs, separated by commas. The round trip
goes through the tokens of a requirement, `LabelTerm.tokens`: the reader of characters gives them for its text
(`tokensFrom?_text`) and the reader of tokens takes the requirement from them (`term?_tokens`). Both are stated for any
continuation that cannot lengthen the requirement, so that they can be folded along the list; `read?_texts` is the
result.

## The side condition

`LabelTerm.IsPlain` asks for words where the grammar has words. Nothing is quoted in the written form, so a comma or a
sign inside a key would be read as one. A value after a sign may be missing; between parentheses the selector has at
least one value, because `k in ()` reads as the list that holds the empty value.
-/

namespace Reaper

namespace LabelQuery

variable {rest : List Char}

/-! ## Words -/

/-- Nothing but characters of words; the empty text is one. -/
def IsBare (s : String) : Prop := ∀ c ∈ s.toList, isWordChar c = true

instance (s : String) : Decidable (IsBare s) := decidable_of_iff (s.toList.all isWordChar = true) List.all_eq_true

/-- A word that is not empty. -/
def IsWord (s : String) : Prop := s ≠ "" ∧ IsBare s

instance (s : String) : Decidable (IsWord s) := inferInstanceAs (Decidable (s ≠ "" ∧ IsBare s))

/-- What comes next cannot lengthen a word. -/
def Stops (cs : List Char) : Prop := ∀ c ∈ cs.head?, isWordChar c = false

@[simp] theorem stops_nil : Stops [] := by simp [Stops]

@[simp] theorem stops_cons {c : Char} : Stops (c :: rest) ↔ isWordChar c = false := by simp [Stops]

@[simp] theorem withWord_nil : withWord [] = id := rfl

theorem withWord_append (w : List Char) (ts us : List Token) : withWord w ts ++ us = withWord w (ts ++ us) := by
  unfold withWord
  split <;> simp

theorem IsWord.withWord_eq {w : String} (h : IsWord w) (ts : List Token) : withWord w.toList ts = .word w :: ts := by
  simp [withWord, h.1]

/-! ## Characters to tokens

One equation for each kind of character. An equals sign is read alone when no second one follows it. -/

@[simp] theorem tokensFrom?_blank : tokensFrom? [] (' ' :: rest) = tokensFrom? [] rest := by
  simp [tokensFrom?, isWordChar]

example : tokens? " app notin (a,b)" = tokens? "app notin(a,b)" := by cbv

@[simp] theorem tokensFrom?_comma : tokensFrom? [] (',' :: rest) = (tokensFrom? [] rest).map (.comma :: ·) := by
  simp [tokensFrom?, isWordChar]

@[simp] theorem tokensFrom?_opening : tokensFrom? [] ('(' :: rest) = (tokensFrom? [] rest).map (.opening :: ·) := by
  simp [tokensFrom?, isWordChar]

@[simp] theorem tokensFrom?_closing : tokensFrom? [] (')' :: rest) = (tokensFrom? [] rest).map (.closing :: ·) := by
  simp [tokensFrom?, isWordChar]

@[simp] theorem tokensFrom?_differs :
    tokensFrom? [] ('!' :: '=' :: rest) = (tokensFrom? [] rest).map (.differs :: ·) := by
  simp [tokensFrom?]

theorem tokensFrom?_word_cons {c : Char} (h : isWordChar c = true) (current : List Char) :
    tokensFrom? current (c :: rest) = tokensFrom? (current ++ [c]) rest := by
  have h1 : c ≠ '=' := by rintro rfl; exact absurd h (by decide)
  have h2 : c ≠ '!' := by rintro rfl; exact absurd h (by decide)
  rw [tokensFrom?]
  · rw [if_pos h]
  · intro r hc; exact absurd hc h1
  · intro r hc; exact absurd hc h2

theorem tokensFrom?_equals (h : rest.head? ≠ some '=') :
    tokensFrom? [] ('=' :: rest) = (tokensFrom? [] rest).map (.equals :: ·) := by
  rw [tokensFrom?]
  · simp [isWordChar]
  · rintro r - rfl; simp at h
  · simp

theorem tokensFrom?_bang (h : rest.head? ≠ some '=') :
    tokensFrom? [] ('!' :: rest) = (tokensFrom? [] rest).map (.bang :: ·) := by
  rw [tokensFrom?]
  · simp [isWordChar]
  · simp
  · rintro r - rfl; simp at h

/-- A word read so far ends where what comes next cannot lengthen it. -/
theorem tokensFrom?_of_stops (h : Stops rest) (current : List Char) :
    tokensFrom? current rest = (tokensFrom? [] rest).map (withWord current) := by
  fun_cases tokensFrom? current rest with
  | case4 c r => exact absurd (h c rfl) (by simp_all)
  | _ => simp_all [tokensFrom?, Function.comp_def]

theorem tokensFrom?_bare (w : List Char) (hw : ∀ c ∈ w, isWordChar c = true) (h : Stops rest) (current : List Char) :
    tokensFrom? current (w ++ rest) = (tokensFrom? [] rest).map (withWord (current ++ w)) := by
  induction w generalizing current with
  | nil => simpa using tokensFrom?_of_stops h current
  | cons c w ih =>
    rw [List.cons_append, tokensFrom?_word_cons (hw c (by simp)), ih fun d hd => hw d (by simp [hd])]
    simp

theorem tokensFrom?_value {v : String} (hv : IsBare v) (h : Stops rest) :
    tokensFrom? [] (v.toList ++ rest) = (tokensFrom? [] rest).map (withWord v.toList) := by
  simpa using tokensFrom?_bare v.toList hv h []

theorem tokensFrom?_word {w : String} (hw : IsWord w) (h : Stops rest) :
    tokensFrom? [] (w.toList ++ rest) = (tokensFrom? [] rest).map (.word w :: ·) := by
  rw [tokensFrom?_value hw.2 h]
  congr 1
  funext ts
  exact hw.withWord_eq ts

/-- The tokens of the values between parentheses, the closing one included. -/
def valueTokens : List String → List Token
  | [] => [.closing]
  | [v] => [.word v, .closing]
  | v :: vs => .word v :: .comma :: valueTokens vs

theorem tokensFrom?_values (vs : List String) (hne : vs ≠ []) (hv : ∀ v ∈ vs, IsWord v) :
    tokensFrom? [] ([','].intercalate (vs.map String.toList) ++ ')' :: rest) =
      (tokensFrom? [] rest).map (valueTokens vs ++ ·) := by
  induction vs with
  | nil => exact absurd rfl hne
  | cons v vs ih =>
    have hword : IsWord v := hv v (by simp)
    cases vs with
    | nil => simp [tokensFrom?_word hword, isWordChar, valueTokens, Function.comp_def]
    | cons u us =>
      have hrest := ih (by simp) fun w hw => hv w (by simp [hw])
      rw [List.map_cons] at hrest
      simp [tokensFrom?_word hword, hrest, isWordChar, valueTokens, Function.comp_def]

/-- A key, a verb and a list of values. -/
theorem tokensFrom?_among {k verb : String} (hk : IsWord k) (hverb : IsWord verb) (vs : List String) (hne : vs ≠ [])
    (hv : ∀ v ∈ vs, IsWord v) (rest : List Char) :
    tokensFrom? [] ((k ++ " " ++ verb ++ " (" ++ ",".intercalate vs ++ ")").toList ++ rest) =
      (tokensFrom? [] rest).map (.word k :: .word verb :: .opening :: valueTokens vs ++ ·) := by
  simp [tokensFrom?_word hk, tokensFrom?_word hverb, tokensFrom?_values vs hne hv, isWordChar, Function.comp_def]

theorem values?_valueTokens (vs : List String) (hne : vs ≠ []) (acc : List String) (ts : List Token) :
    values? acc (valueTokens vs ++ ts) = some (acc.reverse ++ vs, ts) := by
  induction vs generalizing acc with
  | nil => exact absurd rfl hne
  | cons v vs ih =>
    cases vs with
    | nil => simp [valueTokens, values?]
    | cons u us => simpa [valueTokens, values?] using ih (by simp) (v :: acc)

end LabelQuery

/-! ## One requirement -/

namespace LabelTerm

open LabelQuery

def text : LabelTerm → String
  | equals k v => k ++ "=" ++ v
  | differs k v => k ++ "!=" ++ v
  | isIn k vs => k ++ " in (" ++ ",".intercalate vs ++ ")"
  | notIn k vs => k ++ " notin (" ++ ",".intercalate vs ++ ")"
  | present k => k
  | absent k => "!" ++ k

def tokens : LabelTerm → List Token
  | equals k v => .word k :: .equals :: withWord v.toList []
  | differs k v => .word k :: .differs :: withWord v.toList []
  | isIn k vs => .word k :: .word "in" :: .opening :: valueTokens vs
  | notIn k vs => .word k :: .word "notin" :: .opening :: valueTokens vs
  | present k => [.word k]
  | absent k => [.bang, .word k]

/-- A requirement made of words: those a text can hold without quoting. -/
def IsPlain : LabelTerm → Prop
  | equals k v | differs k v => IsWord k ∧ IsBare v
  | isIn k vs | notIn k vs => IsWord k ∧ vs ≠ [] ∧ ∀ v ∈ vs, IsWord v
  | present k | absent k => IsWord k

variable {rest : List Char}

/-- The text of a requirement, up to where the next one may begin, is read as its tokens. -/
theorem tokensFrom?_text {t : LabelTerm} (ht : t.IsPlain) (h : rest = [] ∨ ∃ cs, rest = ',' :: cs) :
    tokensFrom? [] (t.text.toList ++ rest) = (tokensFrom? [] rest).map (t.tokens ++ ·) := by
  have hstops : Stops rest := by
    rcases h with rfl | ⟨cs, rfl⟩ <;> simp [isWordChar]
  have hhead (w : String) (hw : IsBare w) : (w.toList ++ rest).head? ≠ some '=' := by
    cases hcs : w.toList with
    | nil => rcases h with rfl | ⟨cs, rfl⟩ <;> simp
    | cons c cs =>
      have hc : isWordChar c = true := hw c (by simp [hcs])
      intro heq
      obtain rfl : c = '=' := by simpa using heq
      exact absurd hc (by decide)
  cases t with
  | equals k v =>
    simp [text, tokens, tokensFrom?_word ht.1, tokensFrom?_equals (hhead v ht.2), tokensFrom?_value ht.2 hstops,
      isWordChar, withWord_append, Function.comp_def]
  | differs k v =>
    simp [text, tokens, tokensFrom?_word ht.1, tokensFrom?_value ht.2 hstops, isWordChar,
      withWord_append, Function.comp_def]
  | isIn k vs =>
    have hverb : IsWord "in" := by decide
    have h := tokensFrom?_among ht.1 hverb vs ht.2.1 ht.2.2 rest
    simpa [text, tokens] using h
  | notIn k vs =>
    have hverb : IsWord "notin" := by decide
    have h := tokensFrom?_among ht.1 hverb vs ht.2.1 ht.2.2 rest
    simpa [text, tokens] using h
  | present k => simp [text, tokens, tokensFrom?_word ht hstops]
  | absent k => simp [text, tokens, tokensFrom?_bang (hhead k ht.2), tokensFrom?_word ht hstops, Function.comp_def]

/-- The tokens of a requirement, up to where the next one may begin, are read as the requirement. -/
theorem term?_tokens {t : LabelTerm} (ht : t.IsPlain) {ts : List Token} (h : ts = [] ∨ ∃ us, ts = .comma :: us) :
    term? (t.tokens ++ ts) = some (t, ts) := by
  have hvalue (v : String) : value (withWord v.toList ts) = (v, ts) := by
    by_cases hv : v = ""
    · rcases h with rfl | ⟨us, rfl⟩ <;> simp [hv, value]
    · simp [withWord, hv, value]
  cases t with
  | equals k v => simp [tokens, term?, withWord_append, hvalue]
  | differs k v => simp [tokens, term?, withWord_append, hvalue]
  | isIn k vs => simp [tokens, term?, values?_valueTokens vs ht.2.1]
  | notIn k vs => simp [tokens, term?, values?_valueTokens vs ht.2.1]
  | present k => rcases h with rfl | ⟨us, rfl⟩ <;> simp [tokens, term?]
  | absent k => simp [tokens, term?]

theorem tokens_ne_nil (t : LabelTerm) : t.tokens ≠ [] := by
  cases t <;> simp [tokens]

end LabelTerm

/-! ## The list of requirements -/

namespace LabelQuery

open LabelTerm

/-- The tokens of requirements, with commas between them. -/
def joined : List LabelTerm → List Token
  | [] => []
  | [t] => t.tokens
  | t :: ts => t.tokens ++ .comma :: joined ts

theorem tokensFrom?_texts (ts : List LabelTerm) (h : ∀ t ∈ ts, t.IsPlain) :
    tokensFrom? [] ([','].intercalate (ts.map (·.text.toList))) = some (joined ts) := by
  induction ts with
  | nil => simp [tokensFrom?, joined]
  | cons t ts ih =>
    have ht : t.IsPlain := h t (by simp)
    cases ts with
    | nil => simpa [tokensFrom?, joined] using tokensFrom?_text ht (.inl rfl)
    | cons u us =>
      have hrest := ih fun w hw => h w (by simp [hw])
      rw [List.map_cons] at hrest
      simp [tokensFrom?_text ht, hrest, joined]

/-- As many requirements as the fuel allows are read; each has a token of its own, so that the number of tokens is
fuel enough. -/
theorem terms?_joined (ts : List LabelTerm) (hne : ts ≠ []) (h : ∀ t ∈ ts, t.IsPlain) (fuel : Nat)
    (hfuel : ts.length ≤ fuel) : terms? fuel (joined ts) = some ts := by
  induction ts generalizing fuel with
  | nil => exact absurd rfl hne
  | cons t ts ih =>
    have ht : t.IsPlain := h t (by simp)
    obtain ⟨fuel, rfl⟩ : ∃ n, fuel = n + 1 := ⟨fuel - 1, by simp at hfuel; omega⟩
    cases ts with
    | nil =>
      have hterm : term? t.tokens = some (t, []) := by simpa using term?_tokens ht (.inl rfl)
      simp [joined, terms?, hterm]
    | cons u us =>
      have hrest := ih (by simp) (fun w hw => h w (by simp [hw])) fuel (by simp at hfuel ⊢; omega)
      simp [joined, terms?, term?_tokens ht, hrest]

theorem length_le_joined (ts : List LabelTerm) : ts.length ≤ (joined ts).length := by
  induction ts with
  | nil => simp
  | cons t ts ih =>
    have ht : 0 < t.tokens.length := List.length_pos_iff.mpr t.tokens_ne_nil
    cases ts with
    | nil => simp [joined]; omega
    | cons u us => simp [joined] at ih ⊢; omega

/-- Requirements in writing are read as they are. -/
theorem read?_texts (ts : List LabelTerm) (h : ∀ t ∈ ts, t.IsPlain) :
    read? (",".intercalate (ts.map (·.text))) = some ts := by
  have htokens : tokens? (",".intercalate (ts.map (·.text))) = some (joined ts) := by
    simpa [tokens?, Function.comp_def] using tokensFrom?_texts ts h
  rw [read?, htokens]
  cases ts with
  | nil => rfl
  | cons t ts =>
    have hlen := length_le_joined (t :: ts)
    have hne : joined (t :: ts) ≠ [] := by
      intro hnil
      simp [hnil] at hlen
    simp [hne, terms?_joined (t :: ts) (by simp) h _ hlen]

end LabelQuery

/-! ## Selectors -/

/-- A requirement as the grammar has it. -/
def LabelRequirement.term (r : LabelRequirement) : LabelTerm :=
  match r.operator with
  | .isIn => .isIn r.key r.values
  | .notIn => .notIn r.key r.values
  | .present => .present r.key
  | .absent => .absent r.key

/-- A requirement made of words. Values count only where there are to be some. -/
def LabelRequirement.IsPlain (r : LabelRequirement) : Prop :=
  LabelQuery.IsWord r.key ∧
    (r.operator = .isIn ∨ r.operator = .notIn → r.values ≠ [] ∧ ∀ v ∈ r.values, LabelQuery.IsWord v)

instance (r : LabelRequirement) : Decidable r.IsPlain := inferInstanceAs (Decidable (_ ∧ (_ ∨ _ → _ ∧ _)))

namespace LabelSelector

/-- The requirements of a selector. -/
def terms (s : LabelSelector) : List LabelTerm :=
  s.matchLabels.entries.map (fun e => .equals e.1 e.2) ++ s.matchExpressions.map (·.term)

/-- A selector made of words; the values of `matchLabels` may be empty. -/
structure IsPlain (s : LabelSelector) : Prop where
  labels : ∀ e ∈ s.matchLabels.entries, LabelQuery.IsWord e.1 ∧ LabelQuery.IsBare e.2
  expressions : ∀ r ∈ s.matchExpressions, r.IsPlain

instance (s : LabelSelector) : Decidable s.IsPlain :=
  decidable_of_iff (_ ∧ _) ⟨fun h => ⟨h.1, h.2⟩, fun h => ⟨h.labels, h.expressions⟩⟩

theorem text_eq (s : LabelSelector) : s.text = ",".intercalate (s.terms.map (·.text)) := by
  have hr (r : LabelRequirement) : r.term.text = r.text := by
    cases h : r.operator <;> simp [LabelRequirement.term, LabelRequirement.text, LabelTerm.text, h]
  have he (e : String × String) : (LabelTerm.equals e.1 e.2).text = e.1 ++ "=" ++ e.2 := rfl
  simp [text, terms, he, hr, Function.comp_def]

theorem IsPlain.terms {s : LabelSelector} (h : s.IsPlain) : ∀ t ∈ s.terms, t.IsPlain := by
  intro t ht
  rcases List.mem_append.mp ht with ht | ht
  · obtain ⟨e, he, rfl⟩ := List.mem_map.mp ht
    exact h.labels e he
  · obtain ⟨r, hr, rfl⟩ := List.mem_map.mp ht
    have hplain := h.expressions r hr
    cases ho : r.operator <;>
      simpa [LabelRequirement.term, LabelTerm.IsPlain, LabelRequirement.IsPlain, ho] using hplain

/-- A selector in writing is read as its requirements. -/
theorem read?_text {s : LabelSelector} (h : s.IsPlain) : LabelQuery.read? s.text = some s.terms := by
  rw [text_eq]
  exact LabelQuery.read?_texts s.terms h.terms

/-- A resource without labels is decided as one with no label. -/
theorem holds_terms (s : LabelSelector) (labels : Option (Dictionary String)) :
    LabelQuery.holds s.terms (labels.getD ∅) = s.holds labels := by
  have hget (key : String) : (labels.getD ∅).get? key = labels.bind (·.get? key) := by
    cases labels <;> rfl
  have hr (r : LabelRequirement) :
      r.term.holds (labels.getD ∅) = r.holds (labels.bind (·.get? r.key)) := by
    cases h : r.operator <;> simp [LabelRequirement.term, LabelRequirement.holds, LabelTerm.holds, hget, h]
  have he (e : String × String) :
      (LabelTerm.equals e.1 e.2).holds (labels.getD ∅) = (labels.bind (·.get? e.1) == some e.2) := by
    simp [LabelTerm.holds, hget]
  simp [LabelQuery.holds, terms, holds, he, hr, Function.comp_def]

end LabelSelector

end Reaper
