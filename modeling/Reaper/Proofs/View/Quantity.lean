import Mathlib.Data.Rat.Floor
import Reaper.Proofs.Binary64.Values
import Reaper.View

/-!
# The integer view of a number

A value that is a number denotes a rational, its quantity. The integer view is the whole part of the quantity, brought
into the signed range (`asInt?_eq_clamped`); it is missing only for quantities beyond the range
(`beyond_of_asInt?_eq_none`). So a greater number never has a smaller view (`asInt?_mono`).
-/

namespace Reaper.Json

open Binary64 (truncate? ofInt toRat? toRat?_eq_some)
open Rounding (nearest nearest_mono)

variable {j j' : Json} {p q : Rat} {i s s' : Int}

/-! ## Whole parts -/

/-- The whole part of a rational, toward zero. -/
def whole (q : Rat) : Int := q.num.tdiv q.den

theorem whole_of_nonneg (h : 0 ≤ q) : whole q = ⌊q⌋ := by
  rw [whole, Int.tdiv_eq_ediv_of_nonneg (Rat.num_nonneg.mpr h), Rat.floor_def']

theorem whole_neg (q : Rat) : whole (-q) = -whole q := by
  simp [whole, Int.neg_tdiv]

theorem whole_intCast (i : Int) : whole i = i := by simp [whole]

theorem whole_mono (h : p ≤ q) : whole p ≤ whole q := by
  rcases le_total 0 p with hp | hp
  · rw [whole_of_nonneg hp, whole_of_nonneg (hp.trans h)]
    exact Int.floor_mono h
  · -- below zero the two change sides
    have hwhole : whole p ≤ 0 := by
      have hneg : 0 ≤ whole (-p) := whole_of_nonneg (neg_nonneg.mpr hp) ▸ Int.floor_nonneg.mpr (neg_nonneg.mpr hp)
      rw [whole_neg] at hneg
      omega
    rcases le_total 0 q with hq | hq
    · exact hwhole.trans (whole_of_nonneg hq ▸ Int.floor_nonneg.mpr hq)
    · have hfloor : whole (-q) ≤ whole (-p) := by
        rw [whole_of_nonneg (neg_nonneg.mpr hq), whole_of_nonneg (neg_nonneg.mpr hp)]
        exact Int.floor_mono (neg_le_neg h)
      rw [whole_neg, whole_neg] at hfloor
      omega

theorem whole_le_of_le (h : q ≤ i) : whole q ≤ i := whole_intCast i ▸ whole_mono h

theorem le_whole_of_le (h : i ≤ q) : i ≤ whole q := whole_intCast i ▸ whole_mono h

/-- The integer of the signed range that is closest to an integer. -/
def clamped (i : Int) : Int := max int64Range.1 (min i int64Range.2)

theorem clamped_mono (h : s ≤ s') : clamped s ≤ clamped s' := by
  unfold clamped
  omega

/-! ## Quantities -/

/-- The number that a value denotes: a number itself, or the one that a text is read as. -/
def quantity? : Json → Option Rat
  | int i => some i
  | float x => x.toRat?
  | string s =>
    let cs := Text.trim s.toList
    match Text.readInt? int64Range.1 int64Range.2 cs with
    | some i => some i
    | none => (Binary64.read? cs).bind toRat?
  | _ => none

/-- A number is cut where it lies between the ends of the range, and the upper end stands for the integer below. -/
theorem truncated?_eq_some_iff {x : Binary64} :
    truncated? x = some s ↔ ∃ q, x.toRat? = some q ∧ -2 ^ 63 ≤ q ∧ q ≤ 2 ^ 63 ∧ s = min (whole q) int64Range.2 := by
  have hlow : (ofInt int64Range.1).toRat? = some (-2 ^ 63) := by decide +kernel
  have hhigh : (ofInt int64Range.2).toRat? = some (2 ^ 63) := by decide +kernel
  unfold truncated?
  cases hx : x.toRat? with
  | none => simp [Binary64.isFinite, hx]
  | some q =>
    simp only [Binary64.isFinite, hx, Option.isSome_some, Bool.true_and, Binary64.le_eq hlow hx, Binary64.le_eq hx hhigh,
      Bool.and_eq_true, decide_eq_true_eq, truncate?, Option.map_some, Option.some.injEq, exists_eq_left']
    constructor
    · intro h
      split at h
      · rename_i hrange
        exact ⟨hrange.1, hrange.2, (Option.some.inj h).symm⟩
      · simp at h
    · rintro ⟨hge, hle, rfl⟩
      rw [if_pos ⟨hge, hle⟩]
      rfl

theorem inInt64_iff : inInt64 i = true ↔ -2 ^ 63 ≤ i ∧ i < 2 ^ 63 := by
  rw [inInt64, Bool.and_eq_true, decide_eq_true_eq, decide_eq_true_eq, int64Range]
  omega

theorem clamped_of_inInt64 (h : inInt64 i = true) : clamped i = i := by
  rw [inInt64_iff] at h
  unfold clamped int64Range
  omega

theorem eq_clamped_of_truncated? {x : Binary64} (hx : x.toRat? = some q) (h : truncated? x = some s) :
    s = clamped (whole q) := by
  obtain ⟨r, hr, hge, -, rfl⟩ := truncated?_eq_some_iff.mp h
  obtain rfl : q = r := by simpa [hx] using hr
  have hwhole : -2 ^ 63 ≤ whole q := le_whole_of_le (by exact_mod_cast hge)
  unfold clamped int64Range
  omega

theorem nearest_of_ofInt (h : (ofInt i).toRat? = some q) : q = nearest i := by
  unfold ofInt Binary64.ofRat at h
  dsimp only at h
  split at h
  · rename_i hzero
    rw [Binary64.toRat?_zero] at h
    rw [hzero, Option.some.inj h]
  · split at h
    · simp [toRat?] at h
    · split at h
      · simp [toRat?] at h
      · exact (Option.some.inj h).symm

/-- An integer beyond the range has the end of the range for its view, if rounding takes it there. -/
theorem eq_clamped_of_ofInt (hi : ¬ inInt64 i = true) (h : truncated? (ofInt i) = some s) : s = clamped i := by
  obtain ⟨q, hq, hge, hle, rfl⟩ := truncated?_eq_some_iff.mp h
  have hpow : nearest (2 ^ 63) = 2 ^ 63 := by
    exact_mod_cast Rounding.nearest_of_multiple (k := 1) (by norm_num) (u := 63) (by omega)
  rw [nearest_of_ofInt hq] at hge hle ⊢
  rw [inInt64_iff] at hi
  rcases (by omega : i < -2 ^ 63 ∨ 2 ^ 63 ≤ i) with hi | hi
  · have hround : nearest i ≤ -2 ^ 63 := by
      rw [← hpow, ← Rounding.nearest_neg]
      exact nearest_mono (by exact_mod_cast hi.le)
    rw [le_antisymm hround hge, show (-2 ^ 63 : Rat) = ((-2 ^ 63 : Int) : Rat) by norm_num, whole_intCast]
    unfold clamped int64Range
    omega
  · have hround : 2 ^ 63 ≤ nearest i := by
      rw [← hpow]
      exact nearest_mono (by exact_mod_cast hi)
    rw [le_antisymm hle hround, show (2 ^ 63 : Rat) = ((2 ^ 63 : Int) : Rat) by norm_num, whole_intCast]
    unfold clamped int64Range
    omega

theorem inInt64_of_readInt? {cs : List Char} (h : Text.readInt? int64Range.1 int64Range.2 cs = some i) :
    inInt64 i = true := by
  have hread : ∃ k, (if int64Range.1 ≤ k ∧ k ≤ int64Range.2 then some k else none) = some i := by
    unfold Text.readInt? at h
    split at h <;> exact (Option.bind_eq_some_iff.mp h).imp fun k hk => hk.2
  obtain ⟨k, hk⟩ := hread
  split at hk
  · rename_i hrange
    cases hk
    simpa [inInt64] using hrange
  · simp at hk

/-- The three ways to a view: an integer of the range is its own, any other integer is rounded, and what is not an integer
is cut. -/
theorem asInt?_cases (hq : j.quantity? = some q) :
    (∃ i : Int, q = i ∧ inInt64 i = true ∧ j.asInt? = some i) ∨
      (∃ i : Int, q = i ∧ ¬ inInt64 i = true ∧ j.asInt? = truncated? (ofInt i)) ∨
      ∃ x : Binary64, x.toRat? = some q ∧ j.asInt? = truncated? x := by
  unfold quantity? at hq
  split at hq
  · rename_i i
    obtain rfl : (i : Rat) = q := Option.some.inj hq
    by_cases hi : inInt64 i = true
    · exact .inl ⟨i, rfl, hi, if_pos hi⟩
    · exact .inr (.inl ⟨i, rfl, hi, if_neg hi⟩)
  · rename_i x
    exact .inr (.inr ⟨x, hq, rfl⟩)
  · rename_i text
    dsimp only at hq
    split at hq
    · rename_i i hread
      obtain rfl : (i : Rat) = q := Option.some.inj hq
      exact .inl ⟨i, rfl, inInt64_of_readInt? hread, by simp only [asInt?, hread]⟩
    · rename_i hread
      obtain ⟨x, hx, hxq⟩ := Option.bind_eq_some_iff.mp hq
      exact .inr (.inr ⟨x, hxq, by simp only [asInt?, hread, hx, Option.bind_some]⟩)
  · simp at hq

/-- The integer view is the whole part of the quantity, or the end of the range that is next to it. -/
theorem asInt?_eq_clamped (hq : j.quantity? = some q) (h : j.asInt? = some s) : s = clamped (whole q) := by
  obtain ⟨i, rfl, hi, hview⟩ | ⟨i, rfl, hi, hview⟩ | ⟨x, hx, hview⟩ := asInt?_cases hq
  · rw [whole_intCast, clamped_of_inInt64 hi]
    exact Option.some.inj (h.symm.trans hview)
  · rw [whole_intCast]
    exact eq_clamped_of_ofInt hi (hview.symm.trans h)
  · exact eq_clamped_of_truncated? hx (hview.symm.trans h)

theorem beyond_of_truncated? {x : Binary64} (hx : x.toRat? = some q) (h : truncated? x = none) :
    q < -2 ^ 63 ∨ 2 ^ 63 < q := by
  by_contra hin
  obtain ⟨hge, hle⟩ := not_or.mp hin
  have := truncated?_eq_some_iff.mpr ⟨q, hx, not_lt.mp hge, not_lt.mp hle, rfl⟩
  simp [h] at this

/-- A quantity without an integer view lies beyond the range. -/
theorem beyond_of_asInt?_eq_none (hq : j.quantity? = some q) (h : j.asInt? = none) : q < -2 ^ 63 ∨ 2 ^ 63 < q := by
  obtain ⟨i, rfl, hi, hview⟩ | ⟨i, rfl, hi, hview⟩ | ⟨x, hx, hview⟩ := asInt?_cases hq
  · simp [h] at hview
  · rw [inInt64_iff] at hi
    rcases (by omega : i < -2 ^ 63 ∨ i = 2 ^ 63 ∨ 2 ^ 63 < i) with hi | rfl | hi
    · exact .inl (by exact_mod_cast hi)
    · -- the integer next to the range is a number of the format, and is cut
      have hend : (ofInt (2 ^ 63)).toRat? = some (2 ^ 63) := by decide +kernel
      exact absurd (beyond_of_truncated? hend (hview.symm.trans h)) (by norm_num)
    · exact .inr (by exact_mod_cast hi)
  · exact beyond_of_truncated? hx (hview.symm.trans h)

/-- The greater number has the greater view. -/
theorem asInt?_mono (hp : j.quantity? = some p) (hq : j'.quantity? = some q) (hle : p ≤ q) (h : j.asInt? = some s)
    (h' : j'.asInt? = some s') : s ≤ s' := by
  rw [asInt?_eq_clamped hp h, asInt?_eq_clamped hq h']
  exact clamped_mono (whole_mono hle)

end Reaper.Json
