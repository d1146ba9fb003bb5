import Reaper.Proofs.Text.Digits
import Reaper.Proofs.View.Quantity

/-!
# The integer view at the ends of the range

An integer of the signed range, or the text of one, is its own integer view (`asInt?_of_spells`). Any other value is
viewed through the floating-point number that it denotes (`asInt?_of_not_spells`): the number is cut toward zero, and has
no view beyond the range. The upper end of the range is no floating-point number, though, and the one next to it,
`2 ^ 63`, has the end of the range for its view. So the view is exact for every value that does not denote this number
(`isViewedExactly_iff`).
-/

namespace Reaper.Json

open Binary64 (ofInt)

variable {j : Json} {q : Rat} {i n : Int}

theorem whole_lt_of_lt (hi : 0 < i) (h : q < i) : whole q < i := by
  rcases le_total 0 q with hq | hq
  · rw [whole_of_nonneg hq]
    exact Int.floor_lt.mpr h
  · have hle : whole q ≤ 0 := whole_le_of_le (by exact_mod_cast hq)
    omega

/-- The value is an integer of the signed range, or the text of one in decimal. -/
inductive Spells : Json → Int → Prop
  | int {i : Int} : inInt64 i = true → Spells (.int i) i
  | text {s : String} {i : Int} : Text.IsDecimal (Text.trim s.toList) i → inInt64 i = true → Spells (.string s) i

/-- The floating-point number that the value denotes is finite, and this rational. -/
def Denotes (j : Json) (q : Rat) : Prop := ∃ x, j.number? = some x ∧ x.toRat? = some q

/-- An integer that a value spells is its view. -/
theorem asInt?_of_spells (h : j.Spells i) : j.asInt? = some i := by
  cases h with
  | int hi => exact if_pos hi
  | text hdecimal hi =>
    have hread := Text.readInt?_eq_some_iff.mpr ⟨hdecimal, by simpa [inInt64] using hi⟩
    simp only [asInt?, hread]

/-- A value that spells no integer is viewed through the number that it denotes. -/
theorem asInt?_of_not_spells (h : ∀ i, ¬ j.Spells i) : j.asInt? = j.number?.bind truncated? := by
  unfold asInt? number?
  split
  · rename_i i
    rw [if_neg fun hi => h i (.int hi)]
    rfl
  · rfl
  · rename_i s
    dsimp only
    split
    · rename_i i hread
      obtain ⟨hdecimal, hrange⟩ := Text.readInt?_eq_some_iff.mp hread
      exact absurd (.text hdecimal (by simpa [inInt64] using hrange)) (h i)
    · rfl
  · rfl

/-- The view of a value that spells no integer. -/
theorem asInt?_eq_some_iff (h : ∀ i, ¬ j.Spells i) :
    j.asInt? = some n ↔ ∃ q, j.Denotes q ∧ -2 ^ 63 ≤ q ∧ q ≤ 2 ^ 63 ∧ n = min (whole q) int64Range.2 := by
  rw [asInt?_of_not_spells h, Option.bind_eq_some_iff]
  constructor
  · rintro ⟨x, hx, hview⟩
    obtain ⟨q, hq, hrest⟩ := truncated?_eq_some_iff.mp hview
    exact ⟨q, ⟨x, hx, hq⟩, hrest⟩
  · rintro ⟨q, ⟨x, hx, hq⟩, hrest⟩
    exact ⟨x, hx, truncated?_eq_some_iff.mpr ⟨q, hq, hrest⟩⟩

theorem Denotes.unique {p : Rat} (hp : j.Denotes p) (hq : j.Denotes q) : p = q := by
  obtain ⟨x, hx, hxp⟩ := hp
  obtain ⟨y, hy, hyq⟩ := hq
  cases hx.symm.trans hy
  exact Option.some.inj (hxp.symm.trans hyq)

/-- The integer view of a value is the integer that the value spells, or else the number that it denotes, cut toward
zero, and there is none where this is beyond the range. -/
structure IsViewedExactly (j : Json) : Prop where
  spelled : ∀ i, j.Spells i → j.asInt? = some i
  cut : ∀ n, (∀ i, ¬ j.Spells i) → j.asInt? = some n → ∃ q, j.Denotes q ∧ n = whole q
  within : ∀ q : Rat, (∀ i, ¬ j.Spells i) → j.Denotes q → -2 ^ 63 ≤ q → q < 2 ^ 63 → j.asInt? = some (whole q)
  beyond : ∀ q : Rat, (∀ i, ¬ j.Spells i) → j.Denotes q → inInt64 (whole q) = false → j.asInt? = none

/-- The value spells no integer of the range, and denotes the number next to its upper end. -/
def IsPastEnd (j : Json) : Prop := (∀ i, ¬ j.Spells i) ∧ j.Denotes (2 ^ 63)

/-- A number that is cut within the range does not need the end of the range to stand in for it. -/
theorem min_whole_eq_iff (hge : -2 ^ 63 ≤ q) (hle : q ≤ 2 ^ 63) :
    (min (whole q) int64Range.2 = whole q ↔ q ≠ 2 ^ 63) ∧ (inInt64 (whole q) = true ↔ q ≠ 2 ^ 63) := by
  have hlow : -2 ^ 63 ≤ whole q := le_whole_of_le (by exact_mod_cast hge)
  have hhigh : whole q < 2 ^ 63 ↔ q ≠ 2 ^ 63 := by
    constructor
    · rintro hlt rfl
      have hend : whole (2 ^ 63) = 2 ^ 63 := by decide +kernel
      omega
    · intro hne
      exact whole_lt_of_lt (by norm_num) (by exact_mod_cast lt_of_le_of_ne hle hne)
  rw [inInt64_iff, ← hhigh]
  unfold int64Range
  omega

/-- The integer view is exact for every value but those that denote the number next to the upper end of the range, and
are not spelled: their view is the end of the range. -/
theorem isViewedExactly_iff (j : Json) :
    (j.IsViewedExactly ↔ ¬ j.IsPastEnd) ∧ (j.IsPastEnd → j.asInt? = some int64Range.2) := by
  have hend (hpast : j.IsPastEnd) : j.asInt? = some int64Range.2 := by
    obtain ⟨hspells, hdenotes⟩ := hpast
    refine (asInt?_eq_some_iff hspells).mpr ⟨2 ^ 63, hdenotes, by norm_num, le_rfl, ?_⟩
    decide +kernel
  refine ⟨⟨fun hexact hpast => ?_, fun hnot => ?_⟩, hend⟩
  · have hnone := hexact.beyond _ hpast.1 hpast.2 (by decide +kernel)
    rw [hend hpast] at hnone
    cases hnone
  · have hne {q : Rat} (hspells : ∀ i, ¬ j.Spells i) (hq : j.Denotes q) : q ≠ 2 ^ 63 := by
      rintro rfl
      exact hnot ⟨hspells, hq⟩
    exact
      { spelled := fun i h => asInt?_of_spells h
        cut := by
          intro n hspells hview
          obtain ⟨q, hq, hge, hle, rfl⟩ := (asInt?_eq_some_iff hspells).mp hview
          exact ⟨q, hq, (min_whole_eq_iff hge hle).1.mpr (hne hspells hq)⟩
        within := by
          intro q hspells hq hge hlt
          refine (asInt?_eq_some_iff hspells).mpr ⟨q, hq, hge, hlt.le, ?_⟩
          exact ((min_whole_eq_iff hge hlt.le).1.mpr hlt.ne).symm
        beyond := by
          intro q hspells hq hout
          refine Option.eq_none_iff_forall_ne_some.mpr fun n hview => ?_
          obtain ⟨p, hp, hge, hle, -⟩ := (asInt?_eq_some_iff hspells).mp hview
          obtain rfl := hp.unique hq
          have hin := (min_whole_eq_iff hge hle).2.mpr (hne hspells hq)
          rw [hout] at hin
          cases hin }

/-- The greatest floating-point number in the range is viewed exactly. -/
theorem isViewedExactly_greatest :
    (∀ i, ¬ Spells (.float (.finite 9223372036854774784)) i) ∧
      IsViewedExactly (.float (.finite 9223372036854774784)) := by
  have hspells (i : Int) : ¬ Spells (.float (.finite 9223372036854774784)) i := nofun
  refine ⟨hspells, (isViewedExactly_iff _).1.mpr ?_⟩
  rintro ⟨-, x, hx, hq⟩
  cases hx
  exact absurd (Option.some.inj hq) (by norm_num)

/-- The integer after the upper end of the range has the end of the range for its view. -/
theorem not_isViewedExactly_pastEnd :
    asInt? (.int 9223372036854775808) = some 9223372036854775807 ∧ ¬ IsViewedExactly (.int 9223372036854775808) := by
  have hview : asInt? (.int 9223372036854775808) = some 9223372036854775807 := by decide +kernel
  refine ⟨hview, fun hexact => ?_⟩
  have hspells (i : Int) : ¬ Spells (.int 9223372036854775808) i := by
    intro h
    cases h with
    | int hi => exact absurd hi (by decide)
  have hdenotes : Denotes (.int 9223372036854775808) (2 ^ 63) :=
    ⟨ofInt 9223372036854775808, rfl, by decide +kernel⟩
  have hnone := hexact.beyond _ hspells hdenotes (by decide +kernel)
  rw [hview] at hnone
  cases hnone

end Reaper.Json
