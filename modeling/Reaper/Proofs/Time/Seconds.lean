import Reaper.Proofs.Binary64.Grid
import Reaper.Time.Duration

/-!
Durations and numbers of seconds.

A number of seconds on the grid of binary64 numbers is a duration exactly if it is below the limit
(`isSome_ofSeconds?_iff`): the grid has no point so close below the limit that it would be rounded up to it.
-/

namespace Reaper

open Rounding (nearest nearest_mono nearest_nearest nearest_nonneg)

namespace Duration

variable {q : Rat} {n : Nat} {d : Duration}

theorem natAbs_num (hq : 0 ≤ q) : (q.num.natAbs : Rat) = q * q.den := by
  rw [← Int.cast_natCast, Int.natAbs_of_nonneg (Rat.num_nonneg.mpr hq), Rat.mul_den_eq_num]

/-- What is at most a whole number of seconds that a duration holds, is a duration. -/
theorem ofSeconds?_of_le (hq : 0 ≤ q) (h : q ≤ n) (hn : n < secondsLimit) :
    ∃ d, ofSeconds? q = some d ∧ d ≤ ofSecs n := by
  have hcount : Rounding.quotient (q.num.natAbs * perSecond) q.den ≤ n * perSecond := by
    refine Rounding.quotient_le q.den_pos ?_
    have hmul : (q.num.natAbs : Rat) ≤ n * q.den :=
      (natAbs_num hq).trans_le (mul_le_mul_of_nonneg_right h (by positivity))
    have hnat : q.num.natAbs ≤ n * q.den := by exact_mod_cast hmul
    rw [Nat.mul_right_comm]
    exact Nat.mul_le_mul_right _ hnat
  have hlt : Rounding.quotient (q.num.natAbs * perSecond) q.den < secondsLimit * perSecond :=
    hcount.trans_lt (Nat.mul_lt_mul_of_pos_right hn (by decide))
  refine ⟨⟨Rounding.quotient (q.num.natAbs * perSecond) q.den⟩, ?_, hcount⟩
  unfold ofSeconds?
  dsimp only
  rw [if_neg hq.not_gt, if_pos hlt]

/-- A duration of at least a whole number of seconds is no shorter than that. -/
theorem ofSecs_le_of_ofSeconds? (h : n ≤ q) (hd : ofSeconds? q = some d) : ofSecs n ≤ d := by
  have hq : 0 ≤ q := (Nat.cast_nonneg n).trans h
  have hcount : n * perSecond ≤ Rounding.quotient (q.num.natAbs * perSecond) q.den := by
    refine Rounding.le_quotient q.den_pos ?_
    have hmul : (n * q.den : Rat) ≤ q.num.natAbs :=
      (mul_le_mul_of_nonneg_right h (by positivity)).trans_eq (natAbs_num hq).symm
    have hnat : n * q.den ≤ q.num.natAbs := by exact_mod_cast hmul
    rw [Nat.mul_right_comm]
    exact Nat.mul_le_mul_right _ hnat
  unfold ofSeconds? at hd
  rw [if_neg hq.not_gt] at hd
  dsimp only at hd
  split at hd
  · cases hd
    exact hcount
  · cases hd

theorem lt_of_ofSeconds? (hd : ofSeconds? q = some d) : d.nanos < secondsLimit * perSecond := by
  unfold ofSeconds? at hd
  dsimp only at hd
  repeat' split at hd
  all_goals cases hd
  assumption

/-- The points of the grid that are durations. -/
theorem isSome_ofSeconds?_iff (hq : 0 ≤ q) (hpoint : nearest q = q) : (ofSeconds? q).isSome ↔ q < 2 ^ 64 := by
  constructor
  · intro hsome
    obtain ⟨d, hd⟩ := Option.isSome_iff_exists.mp hsome
    by_contra hlarge
    have hle : ((secondsLimit : Nat) : Rat) ≤ q := le_trans (by decide +kernel) (not_lt.mp hlarge)
    exact (ofSecs_le_of_ofSeconds? hle hd).not_gt (lt_of_ofSeconds? hd)
  · intro hlt
    -- there is no point of the grid in the last thousand seconds
    have hle : q ≤ (2 ^ 64 - 1024 : Nat) := by
      by_contra hlast
      have hround := nearest_mono (not_le.mp hlast).le
      rw [hpoint, show nearest ((2 ^ 64 - 1024 : Nat) : Rat) = 2 ^ 64 by decide +kernel] at hround
      exact hround.not_gt hlt
    obtain ⟨d, hd, -⟩ := ofSeconds?_of_le hq hle (by decide)
    rw [hd]
    rfl

/-- Whole seconds that a duration holds are rounded to the limit at most. -/
theorem nearest_le (hn : n < secondsLimit) : nearest n ≤ 2 ^ 64 :=
  (nearest_mono (Nat.cast_le.mpr hn.le)).trans_eq (by decide +kernel)

theorem seconds_ofSecs (n : Nat) : (ofSecs n).seconds nearest = nearest n := by
  have hsecs : (ofSecs n).secs = n := Nat.mul_div_cancel n (by decide)
  have hsub : (ofSecs n).subNanos = 0 := Nat.mul_mod_left ..
  have hzero : nearest (mkRat ((0 : Nat) : Int) perSecond) = 0 := by decide +kernel
  rw [seconds, hsecs, hsub, hzero, add_zero, nearest_nearest]

theorem seconds_nonneg (d : Duration) : 0 ≤ d.seconds nearest := by
  have hfraction : (0 : Rat) ≤ mkRat d.subNanos perSecond := by
    rw [Rat.mkRat_eq_div]
    positivity
  exact nearest_nonneg (add_nonneg (nearest_nonneg (Nat.cast_nonneg _)) (nearest_nonneg hfraction))

/-- A number of seconds counts at most one more than the whole seconds. -/
theorem seconds_le (h : d ≤ ofSecs n) : d.seconds nearest ≤ nearest (nearest n + 1) := by
  have hsecs : d.secs ≤ n := Nat.div_le_of_le_mul ((Nat.mul_comm ..).symm ▸ h)
  have hfraction : mkRat d.subNanos perSecond ≤ 1 := by
    rw [Rat.mkRat_eq_div]
    refine (div_le_one (by norm_num [perSecond])).mpr ?_
    exact_mod_cast (Nat.mod_lt d.nanos (by decide : 0 < perSecond)).le
  refine nearest_mono (add_le_add (nearest_mono (Nat.cast_le.mpr hsecs)) ?_)
  exact (nearest_mono hfraction).trans_eq Rounding.nearest_one

end Duration

end Reaper
