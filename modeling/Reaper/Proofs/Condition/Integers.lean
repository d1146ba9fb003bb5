import Reaper.Condition
import Reaper.Proofs.Binary64.Integers

/-!
# Integers compared with integers

Where a condition compares an integer with naturals in decimal, equal integers have equal texts, and integers that are
the same binary64 number count as equal, too (`Scalar.equals_natText_iff`). So the four operators compare an integer as
it is unless it is the same number as another that it is compared with (`FieldCondition.comparesExactly_iff`), which no
integer below `2 ^ 53` is.
-/

namespace Reaper

open Binary64 (SameNumber ofInt)
open Text (natText intText)

/-- An integer, or the text of a natural in decimal, with the integer that it denotes. -/
inductive Json.IsInteger : Json → Int → Prop
  | int (i : Int) : IsInteger (.int i) i
  | text (n : Nat) : IsInteger (.string (natText n)) n

variable {actual doc : Json} {path : String} {i : Int}

theorem Json.IsInteger.asText?_eq (h : actual.IsInteger i) : actual.asText? = some (intText i) := by
  cases h with
  | int i => rfl
  | text n => rw [asText?, Text.intText_eq_natText_iff.mpr rfl]

theorem Json.IsInteger.number?_eq (h : actual.IsInteger i) : actual.number? = some (ofInt i) := by
  cases h with
  | int i => rfl
  | text n => exact Binary64.read?_natText n

/-- An integer equals the text of a natural if it is the natural, or the same number as the natural. -/
theorem Scalar.equals_natText_iff (h : actual.IsInteger i) (m : Nat) :
    equals actual (natText m) = true ↔ i = m ∨ SameNumber i m := by
  rw [equals, h.asText?_eq, Binary64.read?_natText, Json.asNumber?, h.number?_eq, Bool.or_eq_true, beq_iff_eq,
    Option.some_inj, Text.intText_eq_natText_iff]
  refine or_congr_right ?_
  cases hfinite : (ofInt i).isFinite with
  | true =>
    rw [Option.filter_some, if_pos hfinite]
    exact Binary64.abs_sub_lt_epsilon_iff hfinite
  | false =>
    rw [Option.filter_some, if_neg (by simp [hfinite])]
    refine iff_of_false (by simp) fun ⟨q, hq, _⟩ => ?_
    simp [Binary64.isFinite, hq] at hfinite

namespace FieldCondition

theorem holds_equals_iff (hfound : Path.lookup? doc path = some actual) (h : actual.IsInteger i) (m : Nat)
    (values : List String) :
    holds ⟨path, .equals, some (natText m), values⟩ doc = true ↔ i = m ∨ SameNumber i m := by
  simp [holds, hfound, Scalar.equals_natText_iff h]

theorem holds_notEquals_iff (hfound : Path.lookup? doc path = some actual) (h : actual.IsInteger i) (m : Nat)
    (values : List String) :
    holds ⟨path, .notEquals, some (natText m), values⟩ doc = true ↔ ¬ (i = m ∨ SameNumber i m) := by
  simp [holds, hfound, ← Scalar.equals_natText_iff h]

theorem holds_isIn_iff (hfound : Path.lookup? doc path = some actual) (h : actual.IsInteger i) (ms : List Nat)
    (value : Option String) :
    holds ⟨path, .isIn, value, ms.map natText⟩ doc = true ↔ ∃ m ∈ ms, i = m ∨ SameNumber i m := by
  simp [holds, hfound, Scalar.equals_natText_iff h]

theorem holds_notIn_iff (hfound : Path.lookup? doc path = some actual) (h : actual.IsInteger i) (ms : List Nat)
    (value : Option String) :
    holds ⟨path, .notIn, value, ms.map natText⟩ doc = true ↔ ¬ ∃ m ∈ ms, i = m ∨ SameNumber i m := by
  simp [holds, hfound, ← Scalar.equals_natText_iff h]

/-- The operators tell the integer `i` at a path from the natural `m`, and from the naturals of a list. -/
structure ComparesExactly (path : String) (doc : Json) (i : Int) (m : Nat) (ms : List Nat) : Prop where
  equals : ∀ values, holds ⟨path, .equals, some (natText m), values⟩ doc = true ↔ i = m
  notEquals : ∀ values, holds ⟨path, .notEquals, some (natText m), values⟩ doc = true ↔ i ≠ m
  isIn : ∀ value, holds ⟨path, .isIn, value, ms.map natText⟩ doc = true ↔ ∃ k ∈ ms, i = (k : Nat)
  notIn : ∀ value, holds ⟨path, .notIn, value, ms.map natText⟩ doc = true ↔ ∀ k ∈ ms, i ≠ (k : Nat)

/-- The operators compare an integer exactly if the natural is not another integer of the same number, and the list has
one only along with the integer itself. So they compare every integer exactly that is below `2 ^ 53`. -/
theorem comparesExactly_iff (hfound : Path.lookup? doc path = some actual) (h : actual.IsInteger i) (m : Nat)
    (ms : List Nat) :
    (ComparesExactly path doc i m ms ↔
        (SameNumber i m → i = m) ∧ ((∃ k ∈ ms, SameNumber i k) → ∃ k ∈ ms, i = (k : Nat))) ∧
      (i.natAbs < 2 ^ 53 → ComparesExactly path doc i m ms) := by
  have hexact : ComparesExactly path doc i m ms ↔
      (SameNumber i m → i = m) ∧ ((∃ k ∈ ms, SameNumber i k) → ∃ k ∈ ms, i = (k : Nat)) := by
    constructor
    · intro hcompares
      refine ⟨fun hsame => ?_, fun ⟨k, hk, hsame⟩ => ?_⟩
      · exact (hcompares.equals []).mp ((holds_equals_iff hfound h m []).mpr (.inr hsame))
      · exact (hcompares.isIn none).mp ((holds_isIn_iff hfound h ms none).mpr ⟨k, hk, .inr hsame⟩)
    · rintro ⟨hone, hlist⟩
      have hm : (i = m ∨ SameNumber i m) ↔ i = m := or_iff_left_of_imp hone
      have hms : (∃ k ∈ ms, i = (k : Nat) ∨ SameNumber i k) ↔ ∃ k ∈ ms, i = (k : Nat) := by
        refine ⟨fun ⟨k, hk, hor⟩ => ?_, fun ⟨k, hk, heq⟩ => ⟨k, hk, .inl heq⟩⟩
        exact hor.elim (fun heq => ⟨k, hk, heq⟩) fun hsame => hlist ⟨k, hk, hsame⟩
      exact {
        equals := fun values => by rw [holds_equals_iff hfound h, hm]
        notEquals := fun values => by rw [holds_notEquals_iff hfound h, hm]
        isIn := fun value => by rw [holds_isIn_iff hfound h, hms]
        notIn := fun value => by
          rw [holds_notIn_iff hfound h, hms]
          simp }
  refine ⟨hexact, fun hsmall => hexact.mpr ⟨fun hsame => hsame.eq_of_lt hsmall, fun ⟨k, hk, hsame⟩ => ?_⟩⟩
  exact ⟨k, hk, hsame.eq_of_lt hsmall⟩

/-! On both sides of `2 ^ 53`. -/

/-- What has a build number. -/
def built (build : Json) : Json := .object [("spec", .object [("build", build)])]

/-- The text of the last integer before `2 ^ 53`. -/
theorem comparesExactly_built :
    ComparesExactly ".spec.build" (built (.string (natText 9007199254740991))) 9007199254740991 9007199254740992
      [9007199254740990, 9007199254740993] := by
  have hfound : Path.lookup? (built (.string (natText 9007199254740991))) ".spec.build" =
      some (.string (natText 9007199254740991)) := rfl
  exact (comparesExactly_iff hfound (.text _) _ _).2 (by decide)

/-- `2 ^ 53 + 1` equals `2 ^ 53`. -/
theorem holds_equals_built :
    holds ⟨".spec.build", .equals, some "9007199254740992", []⟩ (built (.int 9007199254740993)) = true ∧
      holds ⟨".spec.build", .notEquals, some "9007199254740992", []⟩ (built (.int 9007199254740993)) = false := by
  have htext : natText 9007199254740992 = "9007199254740992" := by decide +kernel
  have hfound : Path.lookup? (built (.int 9007199254740993)) ".spec.build" = some (.int 9007199254740993) := rfl
  rw [← htext, ← Bool.not_eq_true, holds_equals_iff hfound (.int _), holds_notEquals_iff hfound (.int _)]
  exact ⟨.inr Binary64.sameNumber_pow_succ, not_not.mpr (.inr Binary64.sameNumber_pow_succ)⟩

end FieldCondition

end Reaper
