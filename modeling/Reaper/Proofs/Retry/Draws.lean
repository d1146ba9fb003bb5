import Reaper.Proofs.Binary64.Values
import Reaper.Retry

/-!
The random part of a pause.

A word stands for a fraction from zero to a little below one, the fraction for a number between minus `s` and `s`. The
fraction is multiplied by the width of that interval, enlarged so that the greatest fraction reaches `s`, and reduced
again if rounding carries the product past `s`. One step down is always enough (`exists_scale`). So all words are drawn
with one width (`exists_symmetric`), between minus `s` (`neg_le_draw`) and what the greatest word is drawn as
(`draw_le_draw_topWord`), which is no more than `s`.

  §1 Fractions — what a word stands for.
  §2 Widths    — the width of the interval after its reduction.
  §3 Draws     — the number drawn.
-/

namespace Reaper.RetryPolicy

open Binary64
open Rounding (nearest nearest_mono nearest_nearest nearest_nonneg)

/-! ## §1 Fractions -/

/-- The greatest fraction. -/
def topFraction : Rat := 1 - mkRat 1 (1 <<< 52)

/-- The fraction that a word stands for. -/
def fraction (word : Nat) : Rat := mkRat (word % UInt64.size / (1 <<< 12) : Nat) (1 <<< 52)

/-- The word of the greatest fraction. -/
def topWord : Nat := UInt64.size - 1

theorem topFraction_pos : 0 < topFraction := by decide +kernel

theorem topFraction_le_one : topFraction ≤ 1 := by decide +kernel

theorem fraction_eq (word : Nat) : fraction word = (word % UInt64.size / 2 ^ 12 : Nat) * 2 ^ (-52 : Int) := by
  unfold fraction
  rw [Rat.mkRat_eq_div, Nat.shiftLeft_eq, Nat.shiftLeft_eq, one_mul, one_mul, zpow_neg, div_eq_mul_inv]
  norm_cast

theorem fraction_nonneg (word : Nat) : 0 ≤ fraction word := by
  rw [fraction_eq]
  positivity

theorem fraction_topWord : fraction topWord = topFraction := by decide +kernel

theorem fraction_le (word : Nat) : fraction word ≤ topFraction := by
  have hword : word % UInt64.size / 2 ^ 12 ≤ topWord % UInt64.size / 2 ^ 12 := by
    have : word % UInt64.size < UInt64.size := Nat.mod_lt _ (by decide)
    refine Nat.div_le_div_right ?_
    rw [Nat.mod_eq_of_lt (show topWord < UInt64.size by decide)]
    exact Nat.le_pred_of_lt this
  rw [← fraction_topWord, fraction_eq, fraction_eq]
  exact mul_le_mul_of_nonneg_right (Nat.cast_le.mpr hword) (by positivity)

/-- The greatest fraction as the program counts it. -/
theorem toRat?_top : (belowTwo - .finite 1).toRat? = some topFraction := by decide +kernel

/-- The fraction of a word as the program counts it. -/
theorem toRat?_fraction (word : Nat) : (betweenOneAndTwo word - .finite 1).toRat? = some (fraction word) := by
  set k := word % UInt64.size / 2 ^ 12 with hk
  have hkle : k < 2 ^ 52 := by
    have : word % UInt64.size < 2 ^ 64 := Nat.mod_lt _ (by decide)
    omega
  have hfraction : fraction word = k * 2 ^ (-52 : Int) := fraction_eq word
  have hle : fraction word ≤ topFraction := fraction_le word
  have htop := topFraction_le_one
  have hnonneg := fraction_nonneg word
  have hsum : nearest (1 + fraction word) = 1 + fraction word := by
    have : 1 + fraction word = (2 ^ 52 + k : Nat) * 2 ^ (-52 : Int) := by
      rw [hfraction]
      push_cast
      norm_num
      ring
    rw [this]
    exact Rounding.nearest_of_multiple (by omega) (by omega)
  have hpoint : nearest (fraction word) = fraction word := by
    rw [hfraction]
    exact Rounding.nearest_of_multiple (by omega) (by omega)
  have hbetween : (betweenOneAndTwo word).toRat? = some (1 + fraction word) := by
    have : |1 + fraction word| ≤ 2 ^ 128 := abs_le.mpr ⟨by linarith, by linarith⟩
    exact (toRat?_ofRat _ this).trans (congrArg some hsum)
  have hdiff : 1 + fraction word - 1 = fraction word := add_sub_cancel_left ..
  rw [toRat?_sub hbetween rfl hsum Rounding.nearest_one (abs_le.mpr ⟨by linarith, by linarith⟩), hdiff, hpoint]

/-! ## §2 Widths -/

variable {q s : Rat}

/-- One step down from a positive point of the grid leads to a lower point. -/
theorem stepDown_lt (hq : 0 < q) (hpoint : nearest q = q) :
    ∃ r, stepDown (.finite q) = .finite r ∧ 0 ≤ r ∧ r < q ∧ nearest r = r := by
  have hsteps := Rounding.nearest_of_pos hq
  rw [hpoint] at hsteps
  have hle := Rounding.steps_le_pow hq
  have hu := Rounding.le_stepAt q
  obtain ⟨u, hudef⟩ : ∃ u, u = Rounding.stepAt q := ⟨_, rfl⟩
  obtain ⟨m, hmdef⟩ : ∃ m, m = Rounding.steps q.num.natAbs q.den u := ⟨_, rfl⟩
  have hdown : stepDown (.finite q) = if m = 1 <<< 52 ∧ -1074 < u then
      .finite (Rounding.scaled (2 * m - 1) (u - 1)) else .finite (Rounding.scaled (m - 1) u) := by
    rw [hmdef, hudef]
    rfl
  rw [← hudef] at hsteps hle hu
  rw [← hmdef] at hsteps hle
  rw [hdown]
  have hstep : (0 : Rat) < 2 ^ u := by positivity
  have hm : 0 < m := by
    rcases Nat.eq_zero_or_pos m with rfl | hm
    · rw [hsteps, Nat.cast_zero, zero_mul] at hq
      exact absurd hq (lt_irrefl _)
    · exact hm
  split
  · rename_i hpow
    obtain ⟨rfl, hlow⟩ := hpow
    refine ⟨_, rfl, ?_, ?_, ?_⟩
    all_goals rw [Rounding.scaled_eq]
    · positivity
    · rw [hsteps, zpow_sub_one₀ two_ne_zero]
      norm_num
      linarith
    · exact Rounding.nearest_of_multiple (by decide) (by omega)
  · refine ⟨_, rfl, ?_, ?_, ?_⟩
    all_goals rw [Rounding.scaled_eq]
    · positivity
    · rw [hsteps]
      refine mul_lt_mul_of_pos_right ?_ hstep
      exact_mod_cast Nat.sub_lt hm one_pos
    · exact Rounding.nearest_of_multiple (by omega) hu

/-- A step down from what was rounded leads to no more than what was rounded. -/
theorem stepDown_nearest_le (hq : 0 < nearest q) :
    ∃ r, stepDown (.finite (nearest q)) = .finite r ∧ 0 ≤ r ∧ r < nearest q ∧ r ≤ q := by
  obtain ⟨r, hdown, hnonneg, hlt, hpoint⟩ := stepDown_lt hq (nearest_nearest q)
  refine ⟨r, hdown, hnonneg, hlt, ?_⟩
  by_contra hpassed
  have := nearest_mono (not_le.mp hpassed).le
  rw [hpoint] at this
  exact this.not_gt hlt

/-- The number that a word is drawn as between minus `s` and `s`, the width being `scale`. -/
def draw (s scale : Rat) (word : Nat) : Rat := nearest (nearest (fraction word * scale) - s)

variable {scale : Rat}

/-- A product less `s`, as the program counts it. -/
theorem toRat?_mul_add_neg {x y : Binary64} {f : Rat} (hx : x.toRat? = some f) (hy : y.toRat? = some q)
    (h0 : 0 ≤ f * q) (h4 : f * q ≤ 4) (hs : 0 < s) (hs1 : s ≤ 1) (hpoint : nearest s = s) :
    (x * y + .finite (-s)).toRat? = some (nearest (nearest (f * q) - s)) := by
  have hround := nearest_nonneg h0
  have hround4 : nearest (f * q) ≤ 4 := (nearest_mono h4).trans_eq (by decide +kernel)
  have hproduct := toRat?_mul hx hy (abs_le.mpr ⟨by linarith, by linarith⟩)
  rw [sub_eq_add_neg]
  exact toRat?_add hproduct rfl (nearest_nearest _) (by rw [Rounding.nearest_neg, hpoint])
    (abs_le.mpr ⟨by linarith, by linarith⟩)

/-- The width before it is reduced. -/
theorem firstWidth_eq (hs : 0 < s) (hs1 : s ≤ 1) (hpoint : nearest s = s) :
    (.finite s - .finite (-s)) / (belowTwo - .finite 1) = Binary64.finite (nearest (2 * s / topFraction)) ∧
      0 < nearest (2 * s / topFraction) ∧ nearest (2 * s / topFraction) ≤ 4 := by
  have hdouble : nearest (2 * s) = 2 * s := Rounding.nearest_two_mul hs hpoint
  have hwidth : (Binary64.finite s - .finite (-s)).toRat? = some (2 * s) := by
    have hsub : s - -s = 2 * s := by ring
    have hbound : |s - -s| ≤ 2 ^ 128 := abs_le.mpr ⟨by linarith, by linarith⟩
    rw [toRat?_sub rfl rfl hpoint (by rw [Rounding.nearest_neg, hpoint]) hbound, hsub, hdouble]
  have hlow : 2 * s ≤ 2 * s / topFraction := by
    refine (le_div_iff₀ topFraction_pos).mpr ?_
    exact mul_le_of_le_one_right (by linarith) topFraction_le_one
  have hhigh : 2 * s / topFraction ≤ 4 :=
    (div_le_div_of_nonneg_right (by linarith : 2 * s ≤ 2) topFraction_pos.le).trans (by decide +kernel)
  have hpos : 0 < nearest (2 * s / topFraction) := by
    have := nearest_mono hlow
    rw [hdouble] at this
    linarith
  have hvalue := toRat?_div hwidth toRat?_top topFraction_pos.ne' (abs_le.mpr ⟨by linarith, by linarith⟩)
  exact ⟨eq_finite hvalue hpos.ne', hpos, (nearest_mono hhigh).trans_eq (by decide +kernel)⟩

/-- What is tested of a width. -/
theorem lt_fitted_eq (h0 : 0 ≤ scale) (h4 : scale ≤ 4) (hs : 0 < s) (hs1 : s ≤ 1) (hpoint : nearest s = s) :
    (Binary64.finite s).lt (.finite scale * (belowTwo - .finite 1) + .finite (-s)) =
      decide (s < draw s scale topWord) := by
  have hproduct : 0 ≤ scale * topFraction := mul_nonneg h0 topFraction_pos.le
  have hproduct4 : scale * topFraction ≤ 4 := (mul_le_of_le_one_right h0 topFraction_le_one).trans h4
  rw [lt_eq rfl (toRat?_mul_add_neg rfl toRat?_top hproduct hproduct4 hs hs1 hpoint), draw, fraction_topWord,
    mul_comm topFraction]

/-- A width that the greatest fraction takes to no more than the length of the interval fits. -/
theorem draw_topWord_le (hs : 0 < s) (hpoint : nearest s = s) (hscale : scale ≤ 2 * s / topFraction) :
    draw s scale topWord ≤ s := by
  have hproduct : fraction topWord * scale ≤ 2 * s := by
    rw [fraction_topWord, mul_comm]
    exact (le_div_iff₀ topFraction_pos).mp hscale
  have hround := nearest_mono hproduct
  rw [Rounding.nearest_two_mul hs hpoint] at hround
  have hdraw := nearest_mono (show nearest (fraction topWord * scale) - s ≤ s by linarith)
  rwa [hpoint] at hdraw

/-- The width is reduced until the greatest word is drawn no higher than `s`, which takes one step down at most. -/
theorem exists_scale (hs : 0 < s) (hs1 : s ≤ 1) (hpoint : nearest s = s) :
    ∃ scale, 0 ≤ scale ∧ scale ≤ 4 ∧ draw s scale topWord ≤ s ∧
      fittedScale (.finite (-s)) (.finite s) (belowTwo - .finite 1) 64
        ((.finite s - .finite (-s)) / (belowTwo - .finite 1)) = .finite scale := by
  obtain ⟨hfirst, hpos, hle⟩ := firstWidth_eq hs hs1 hpoint
  rw [hfirst]
  by_cases hfit : draw s (nearest (2 * s / topFraction)) topWord ≤ s
  · refine ⟨_, hpos.le, hle, hfit, ?_⟩
    rw [fittedScale, lt_fitted_eq hpos.le hle hs hs1 hpoint, decide_eq_false hfit.not_gt]
    rfl
  · obtain ⟨r, hdown, hr0, hrlt, hrle⟩ := stepDown_nearest_le hpos
    have hr4 : r ≤ 4 := hrlt.le.trans hle
    have hrfit : draw s r topWord ≤ s := draw_topWord_le hs hpoint hrle
    refine ⟨r, hr0, hr4, hrfit, ?_⟩
    rw [fittedScale, lt_fitted_eq hpos.le hle hs hs1 hpoint, decide_eq_true (not_le.mp hfit), if_pos rfl, hdown,
      fittedScale, lt_fitted_eq hr0 hr4 hs hs1 hpoint, decide_eq_false hrfit.not_gt]
    rfl

/-! ## §3 Draws -/

theorem nearest_draw (s scale : Rat) (word : Nat) : nearest (draw s scale word) = draw s scale word :=
  nearest_nearest _

/-- No word is drawn below minus `s`. -/
theorem neg_le_draw (hpoint : nearest s = s) (hscale : 0 ≤ scale) (word : Nat) : -s ≤ draw s scale word := by
  have hproduct := nearest_nonneg (mul_nonneg (fraction_nonneg word) hscale)
  have := nearest_mono (show -s ≤ nearest (fraction word * scale) - s by linarith)
  rwa [Rounding.nearest_neg, hpoint] at this

/-- No word is drawn above the greatest one. -/
theorem draw_le_draw_topWord (hscale : 0 ≤ scale) (word : Nat) : draw s scale word ≤ draw s scale topWord := by
  have hfraction : fraction word ≤ fraction topWord := fraction_topWord ▸ fraction_le word
  have hproduct := nearest_mono (mul_le_mul_of_nonneg_right hfraction hscale)
  exact nearest_mono (sub_le_sub_right hproduct s)

/-- What the program draws, with one width for all words. -/
theorem exists_symmetric (hs : 0 < s) (hs1 : s ≤ 1) (hpoint : nearest s = s) :
    ∃ scale, 0 ≤ scale ∧ draw s scale topWord ≤ s ∧
      ∀ word, (symmetric (.finite s) word).toRat? = some (draw s scale word) := by
  obtain ⟨scale, h0, h4, hfits, hscale⟩ := exists_scale hs hs1 hpoint
  refine ⟨scale, h0, hfits, fun word => ?_⟩
  have hneg : -Binary64.finite s = .finite (-s) := if_neg hs.ne'
  have hfraction := fraction_nonneg word
  have hle : fraction word * scale ≤ 4 :=
    (mul_le_of_le_one_left h0 ((fraction_le word).trans topFraction_le_one)).trans h4
  unfold symmetric
  dsimp only
  rw [hneg, hscale]
  exact toRat?_mul_add_neg (toRat?_fraction word) rfl (mul_nonneg hfraction h0) hle hs hs1 hpoint

end Reaper.RetryPolicy
