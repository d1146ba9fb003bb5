import Mathlib.Algebra.Order.Field.Power
import Mathlib.Algebra.Order.Field.Rat
import Mathlib.Data.Rat.Floor
import Mathlib.Tactic.FieldSimp
import Mathlib.Tactic.Linarith
import Mathlib.Tactic.NormNum
import Mathlib.Tactic.Positivity
import Mathlib.Tactic.Ring
import Reaper.Binary64.Rounding

/-!
The binary64 grid.

At a positive number the grid has a step (`stepAt`), and rounding takes the number to a multiple of it without passing
any other (`le_nearest`, `nearest_le`). A number of at most 53 bits is a multiple of its own step, so it is on the grid
(`nearest_of_multiple`), and rounding twice is rounding once (`nearest_nearest`). Rounding keeps the order
(`nearest_mono`), so it does not pass any point of the grid.

  §1 Steps  — rounding to multiples of a step, and the step at a number.
  §2 Points — what rounding leaves alone.
  §3 Order  — rounding is monotone.
  §4 Gaps   — how far apart points of the grid are.
-/

namespace Reaper.Rounding

/-! ## §1 Steps -/

/-- Rounding to a natural passes `k` when the half above it is passed, or reached from an odd `k`. -/
theorem lt_quotient_iff {k n d : Nat} (hd : 0 < d) :
    k < quotient n d ↔ (2 * k + 1) * d < 2 * n ∨ (2 * k + 1) * d = 2 * n ∧ k % 2 = 1 := by
  have hn := Nat.div_add_mod' n d
  have hr : n % d < d := Nat.mod_lt n hd
  have hhalf : (2 * k + 1) * d = 2 * (k * d) + d := by ring
  unfold quotient
  dsimp only
  rcases lt_trichotomy k (n / d) with hk | rfl | hk
  · have hle : (k + 1) * d ≤ n / d * d := Nat.mul_le_mul_right d hk
    rw [Nat.succ_mul] at hle
    refine iff_of_true ?_ (.inl (by omega))
    repeat' split
    all_goals omega
  · repeat' split
    all_goals omega
  · have hle : (n / d + 1) * d ≤ k * d := Nat.mul_le_mul_right d hk
    rw [Nat.succ_mul] at hle
    refine iff_of_false ?_ (by omega)
    repeat' split
    all_goals omega

theorem le_quotient {k n d : Nat} (hd : 0 < d) (h : k * d ≤ n) : k ≤ quotient n d := by
  cases k with
  | zero => exact Nat.zero_le _
  | succ k =>
    have hhalf : (2 * k + 1) * d < 2 * ((k + 1) * d) := by
      rw [← mul_assoc]
      exact Nat.mul_lt_mul_of_pos_right (by omega) hd
    exact (lt_quotient_iff hd).mpr (.inl (by omega))

theorem quotient_le {k n d : Nat} (hd : 0 < d) (h : n ≤ k * d) : quotient n d ≤ k := by
  have hhalf : 2 * (k * d) < (2 * k + 1) * d := by
    rw [← mul_assoc]
    exact Nat.mul_lt_mul_of_pos_right (by omega) hd
  exact not_lt.mp ((lt_quotient_iff hd).not.mpr (by omega))

theorem scaled_eq (k : Nat) (u : Int) : scaled k u = k * 2 ^ u := by
  unfold scaled
  split
  · rename_i hu
    obtain ⟨m, rfl⟩ := Int.eq_ofNat_of_zero_le hu
    simp [Nat.shiftLeft_eq]
  · rename_i hu
    obtain ⟨m, rfl⟩ : ∃ m : Nat, u = -m := ⟨(-u).toNat, by omega⟩
    simp [Nat.shiftLeft_eq, Rat.mkRat_eq_div, div_eq_mul_inv]

/-- Counting in steps rounds a quotient. -/
theorem steps_eq_quotient {n d : Nat} (hd : 0 < d) (u : Int) :
    ∃ n' d' : Nat, 0 < d' ∧ steps n d u = quotient n' d' ∧ (n' : Rat) / d' = n / d / 2 ^ u := by
  unfold steps
  split
  · rename_i hu
    obtain ⟨m, rfl⟩ := Int.eq_ofNat_of_zero_le hu
    refine ⟨n, d <<< m, ?_, by simp, ?_⟩
    · rw [Nat.shiftLeft_eq]
      positivity
    · rw [Nat.shiftLeft_eq]
      push_cast
      rw [div_div]
      rfl
  · rename_i hu
    obtain ⟨m, rfl⟩ : ∃ m : Nat, u = -m := ⟨(-u).toNat, by omega⟩
    refine ⟨n <<< m, d, hd, by simp, ?_⟩
    rw [Nat.shiftLeft_eq]
    push_cast
    rw [zpow_neg, zpow_natCast, div_inv_eq_mul]
    ring

theorem le_steps {k n d : Nat} (hd : 0 < d) {u : Int} (h : (k : Rat) * 2 ^ u ≤ n / d) : k ≤ steps n d u := by
  obtain ⟨n', d', hd', hsteps, hquotient⟩ := steps_eq_quotient (n := n) hd u
  have hpos : (0 : Rat) < d' := Nat.cast_pos.mpr hd'
  have hle : (k : Rat) ≤ n' / d' := by
    rw [hquotient]
    exact (le_div_iff₀ (by positivity)).mpr h
  rw [hsteps]
  refine le_quotient hd' ?_
  exact_mod_cast (le_div_iff₀ hpos).mp hle

theorem steps_le {k n d : Nat} (hd : 0 < d) {u : Int} (h : (n : Rat) / d ≤ k * 2 ^ u) : steps n d u ≤ k := by
  obtain ⟨n', d', hd', hsteps, hquotient⟩ := steps_eq_quotient (n := n) hd u
  have hpos : (0 : Rat) < d' := Nat.cast_pos.mpr hd'
  have hle : (n' : Rat) / d' ≤ k := by
    rw [hquotient]
    exact (div_le_iff₀ (by positivity)).mpr h
  rw [hsteps]
  refine quotient_le hd' ?_
  exact_mod_cast (div_le_iff₀ hpos).mp hle

/-- Counting in steps passes `k` when the half above it is passed, or reached from an odd `k`. -/
theorem lt_steps_iff {k n d : Nat} (hd : 0 < d) {u : Int} :
    k < steps n d u ↔ (k + 1 / 2 : Rat) * 2 ^ u < n / d ∨ (k + 1 / 2 : Rat) * 2 ^ u = n / d ∧ k % 2 = 1 := by
  obtain ⟨n', d', hd', hsteps, hquotient⟩ := steps_eq_quotient (n := n) hd u
  have hpos : (0 : Rat) < d' := Nat.cast_pos.mpr hd'
  have hstep : (0 : Rat) < 2 ^ u := by positivity
  have hlt : (2 * k + 1) * d' < 2 * n' ↔ (k + 1 / 2 : Rat) * 2 ^ u < n / d := by
    rw [← lt_div_iff₀ hstep, ← hquotient, lt_div_iff₀ hpos, ← Nat.cast_lt (α := Rat)]
    push_cast
    constructor <;> intro h <;> linarith
  have heq : (2 * k + 1) * d' = 2 * n' ↔ (k + 1 / 2 : Rat) * 2 ^ u = n / d := by
    rw [← eq_div_iff hstep.ne', ← hquotient, eq_div_iff hpos.ne', ← Nat.cast_inj (R := Rat)]
    push_cast
    constructor <;> intro h <;> linarith
  rw [hsteps, lt_quotient_iff hd', hlt, heq]

/-- Comparing a quotient with a power of two without division. -/
theorem isBelow_iff {n d : Nat} (hd : 0 < d) (e : Int) :
    (if 0 ≤ e then n < d <<< e.toNat else n <<< (-e).toNat < d : Bool) = true ↔ (n : Rat) / d < 2 ^ e := by
  rw [div_lt_iff₀ (Nat.cast_pos.mpr hd)]
  split
  · rename_i he
    obtain ⟨m, rfl⟩ := Int.eq_ofNat_of_zero_le he
    simp only [Int.toNat_natCast, Nat.shiftLeft_eq, zpow_natCast, decide_eq_true_eq]
    rw [mul_comm (d : Nat)]
    exact_mod_cast Iff.rfl
  · rename_i he
    obtain ⟨m, rfl⟩ : ∃ m : Nat, e = -m := ⟨(-e).toNat, by omega⟩
    have hpow : (0 : Rat) < 2 ^ m := by positivity
    simp only [neg_neg, Int.toNat_natCast, Nat.shiftLeft_eq, zpow_neg, zpow_natCast, decide_eq_true_eq]
    rw [inv_mul_eq_div, lt_div_iff₀ hpow]
    exact_mod_cast Iff.rfl

/-- The binary exponent of a positive quotient. -/
theorem binaryExponent_spec {n d : Nat} (hn : 0 < n) (hd : 0 < d) :
    (2 : Rat) ^ binaryExponent n d ≤ n / d ∧ (n : Rat) / d < 2 ^ (binaryExponent n d + 1) := by
  have hdpos : (0 : Rat) < d := Nat.cast_pos.mpr hd
  have hn₁ : (2 : Rat) ^ (n.log2 : Int) ≤ n := by exact_mod_cast Nat.log2_self_le hn.ne'
  have hn₂ : (n : Rat) < 2 ^ (n.log2 + 1 : Int) := by exact_mod_cast Nat.lt_log2_self
  have hd₁ : (2 : Rat) ^ (d.log2 : Int) ≤ d := by exact_mod_cast Nat.log2_self_le hd.ne'
  have hd₂ : (d : Rat) < 2 ^ (d.log2 + 1 : Int) := by exact_mod_cast Nat.lt_log2_self
  -- the difference of the logarithms is off by less than one in either direction
  have hlow : (2 : Rat) ^ ((n.log2 : Int) - d.log2 - 1) ≤ n / d := by
    rw [le_div_iff₀ hdpos]
    calc (2 : Rat) ^ ((n.log2 : Int) - d.log2 - 1) * d ≤ 2 ^ ((n.log2 : Int) - d.log2 - 1) * 2 ^ (d.log2 + 1 : Int) :=
          mul_le_mul_of_nonneg_left hd₂.le (by positivity)
      _ = 2 ^ (n.log2 : Int) := by rw [← zpow_add₀ two_ne_zero]; congr 1; omega
      _ ≤ n := hn₁
  have hhigh : (n : Rat) / d < 2 ^ ((n.log2 : Int) - d.log2 + 1) := by
    rw [div_lt_iff₀ hdpos]
    calc (n : Rat) < 2 ^ (n.log2 + 1 : Int) := hn₂
      _ = 2 ^ ((n.log2 : Int) - d.log2 + 1) * 2 ^ (d.log2 : Int) := by rw [← zpow_add₀ two_ne_zero]; congr 1; omega
      _ ≤ 2 ^ ((n.log2 : Int) - d.log2 + 1) * d := mul_le_mul_of_nonneg_left hd₁ (by positivity)
  unfold binaryExponent
  dsimp only
  by_cases h : (n : Rat) / d < 2 ^ ((n.log2 : Int) - d.log2)
  · rw [if_pos ((isBelow_iff hd _).mpr h), sub_add_cancel]
    exact ⟨hlow, h⟩
  · rw [if_neg ((isBelow_iff hd _).not.mpr h)]
    exact ⟨not_lt.mp h, hhigh⟩

/-- The exponent of the step of the grid at a positive number. -/
def stepAt (q : Rat) : Int := stepExponent q.num.natAbs q.den

variable {q r : Rat}

theorem natAbs_div_den (hq : 0 < q) : (q.num.natAbs : Rat) / q.den = q := by
  have hnum : 0 < q.num := Rat.num_pos.mpr hq
  rw [← Int.cast_natCast q.num.natAbs, Int.natAbs_of_nonneg hnum.le]
  exact Rat.num_div_den q

/-- Rounding a positive number counts it in steps. -/
theorem nearest_of_pos (hq : 0 < q) :
    nearest q = steps q.num.natAbs q.den (stepAt q) * 2 ^ stepAt q := by
  have hnum : 0 < q.num := Rat.num_pos.mpr hq
  unfold nearest
  rw [if_neg hnum.ne', if_neg hnum.le.not_gt]
  exact scaled_eq ..

theorem le_stepAt (q : Rat) : -1074 ≤ stepAt q := le_max_right ..

/-- A number is less than `2 ^ 53` steps. -/
theorem lt_stepAt (hq : 0 < q) : q < 2 ^ (stepAt q + 53) := by
  have hspec := (binaryExponent_spec (Int.natAbs_pos.mpr (Rat.num_pos.mpr hq).ne') q.den_pos).2
  rw [natAbs_div_den hq] at hspec
  refine hspec.trans_le (zpow_le_zpow_right₀ one_le_two ?_)
  have hmax : binaryExponent q.num.natAbs q.den - 52 ≤ stepAt q := le_max_left ..
  omega

/-- Where a number is greater, the step is no smaller. -/
theorem stepAt_of_le {m : Int} (hq : 0 < q) (h : (2 : Rat) ^ m ≤ q) : m - 52 ≤ stepAt q := by
  have hlt : (2 : Rat) ^ m < 2 ^ (stepAt q + 53) := h.trans_lt (lt_stepAt hq)
  have := (zpow_lt_zpow_iff_right₀ one_lt_two).mp hlt
  omega

/-- Where a number is smaller, the step is no greater, down to the smallest. -/
theorem stepAt_le {m : Int} (hm : -1074 ≤ m) (hq : 0 < q) (h : q < 2 ^ (m + 53)) : stepAt q ≤ m := by
  have hspec := (binaryExponent_spec (Int.natAbs_pos.mpr (Rat.num_pos.mpr hq).ne') q.den_pos).1
  rw [natAbs_div_den hq] at hspec
  have hlt := (zpow_lt_zpow_iff_right₀ (one_lt_two : (1 : Rat) < 2)).mp (hspec.trans_lt h)
  exact max_le (by omega) hm

theorem stepAt_mono (hq : 0 < q) (h : q ≤ r) : stepAt q ≤ stepAt r :=
  stepAt_le (le_stepAt r) hq (h.trans_lt (lt_stepAt (hq.trans_le h)))

/-- Above the smallest step, a number is at least `2 ^ 52` steps. -/
theorem stepAt_pow_le (hq : 0 < q) (h : -1074 < stepAt q) : (2 : Rat) ^ (stepAt q + 52) ≤ q := by
  by_contra hlt
  have := stepAt_le (m := stepAt q - 1) (by omega) hq (by
    rw [show stepAt q - 1 + 53 = stepAt q + 52 by omega]
    exact not_le.mp hlt)
  omega

/-- Rounding passes no multiple of the step on its way down. -/
theorem le_nearest {k : Nat} (hq : 0 < q) (h : k * 2 ^ stepAt q ≤ q) : k * 2 ^ stepAt q ≤ nearest q := by
  rw [nearest_of_pos hq]
  refine mul_le_mul_of_nonneg_right ?_ (by positivity)
  exact_mod_cast le_steps q.den_pos (h.trans_eq (natAbs_div_den hq).symm)

/-- Rounding passes no multiple of the step on its way up. -/
theorem nearest_le {k : Nat} (hq : 0 < q) (h : q ≤ k * 2 ^ stepAt q) : nearest q ≤ k * 2 ^ stepAt q := by
  rw [nearest_of_pos hq]
  refine mul_le_mul_of_nonneg_right ?_ (by positivity)
  exact_mod_cast steps_le q.den_pos ((natAbs_div_den hq).trans_le h)

/-- Rounding takes less than a step away. -/
theorem sub_lt_nearest (hq : 0 < q) : q - 2 ^ stepAt q < nearest q := by
  have hstep : (0 : Rat) < 2 ^ stepAt q := by positivity
  -- the last multiple of the step that does not pass `q`
  let k := ⌊q / 2 ^ stepAt q⌋₊
  have hbelow : k * 2 ^ stepAt q ≤ q := (le_div_iff₀ hstep).mp (Nat.floor_le (by positivity))
  have habove : q < (k + 1) * 2 ^ stepAt q := (div_lt_iff₀ hstep).mp (Nat.lt_floor_add_one _)
  calc q - 2 ^ stepAt q < k * 2 ^ stepAt q := by linarith
    _ ≤ nearest q := le_nearest hq hbelow

/-- Below one, that is less than `2 ^ (-53)`. -/
theorem sub_le_nearest (h0 : 0 ≤ q) (h1 : q < 1) : q - 2 ^ (-53 : Int) ≤ nearest q := by
  rcases h0.eq_or_lt with rfl | hq
  · norm_num [nearest]
  · have hstep : stepAt q ≤ -53 := stepAt_le (by norm_num) hq (h1.trans_eq (by norm_num))
    have hsmall : (2 : Rat) ^ stepAt q ≤ 2 ^ (-53 : Int) := zpow_le_zpow_right₀ one_le_two hstep
    linarith [sub_lt_nearest hq]

/-! ## §2 Points -/

@[simp] theorem nearest_zero : nearest 0 = 0 := rfl

@[simp] theorem nearest_one : nearest 1 = 1 := by decide +kernel

theorem nearest_neg (q : Rat) : nearest (-q) = -nearest q := by
  unfold nearest
  rw [Rat.num_neg_eq_neg_num, Rat.den_neg_eq_den, Int.natAbs_neg]
  rcases lt_trichotomy q.num 0 with h | h | h
  · rw [if_neg (by omega), if_neg (by omega), if_neg (by omega), if_pos h, neg_neg]
  · rw [if_pos (by omega), if_pos h, neg_zero]
  · rw [if_neg (by omega), if_pos (by omega), if_neg (by omega), if_neg (by omega)]

/-- A multiple of some step that takes no more than 53 bits is on the grid. -/
theorem nearest_of_multiple {k : Nat} (hk : k ≤ 2 ^ 53) {u : Int} (hu : -1074 ≤ u) :
    nearest (k * 2 ^ u : Rat) = k * 2 ^ u := by
  rcases Nat.eq_zero_or_pos k with rfl | hkpos
  · simp
  have hkrat : (0 : Rat) < k := Nat.cast_pos.mpr hkpos
  have hq : (0 : Rat) < k * 2 ^ u := by positivity
  -- it is a multiple of the step at it
  obtain ⟨m, hm⟩ : ∃ m : Nat, (k : Rat) * 2 ^ u = m * 2 ^ stepAt (k * 2 ^ u) := by
    rcases hk.lt_or_eq with hlt | rfl
    · have hstep : stepAt (k * 2 ^ u) ≤ u := by
        refine stepAt_le hu hq ?_
        rw [zpow_add₀ two_ne_zero, mul_comm]
        exact mul_lt_mul_of_pos_left (by exact_mod_cast hlt) (by positivity)
      refine ⟨k * 2 ^ (u - stepAt (k * 2 ^ u)).toNat, ?_⟩
      push_cast
      rw [mul_assoc, ← zpow_natCast, ← zpow_add₀ two_ne_zero, Int.toNat_of_nonneg (by omega), sub_add_cancel]
    · have hpow : ((2 ^ 53 : Nat) : Rat) * 2 ^ u = 2 ^ (u + 53) := by
        rw [zpow_add₀ two_ne_zero, mul_comm]
        norm_num
      have hstep : stepAt ((2 ^ 53 : Nat) * 2 ^ u) = u + 1 := by
        refine le_antisymm (stepAt_le (by omega) hq ?_) ?_
        · rw [hpow]
          exact zpow_lt_zpow_right₀ one_lt_two (by omega)
        · have := stepAt_of_le hq hpow.symm.le
          omega
      refine ⟨2 ^ 52, ?_⟩
      rw [hstep, hpow, show u + 53 = 52 + (u + 1) by omega, zpow_add₀ two_ne_zero]
      norm_num
  refine le_antisymm ?_ ?_
  · exact (nearest_le hq hm.le).trans_eq hm.symm
  · exact hm.trans_le (le_nearest hq hm.symm.le)

/-- Rounding leaves a whole number alone that needs no more than 53 bits. -/
theorem nearest_natCast {n : Nat} (hn : n ≤ 2 ^ 53) : nearest n = n := by
  simpa using nearest_of_multiple hn (u := 0) (by omega)

theorem nearest_intCast {i : Int} (hi : i.natAbs ≤ 2 ^ 53) : nearest i = i := by
  have hround := nearest_natCast hi
  rcases Int.natAbs_eq i with h | h
  · rw [h, Int.cast_natCast]
    exact hround
  · rw [h, Int.cast_neg, Int.cast_natCast, nearest_neg, hround]

/-- A number is rounded to no more than `2 ^ 53` steps. -/
theorem steps_le_pow (hq : 0 < q) : steps q.num.natAbs q.den (stepAt q) ≤ 2 ^ 53 := by
  refine steps_le q.den_pos ?_
  rw [natAbs_div_den hq]
  refine (lt_stepAt hq).le.trans_eq ?_
  rw [zpow_add₀ two_ne_zero, mul_comm]
  norm_num

/-- Rounding twice is rounding once. -/
theorem nearest_nearest (q : Rat) : nearest (nearest q) = nearest q := by
  have hpos {q : Rat} (hq : 0 < q) : nearest (nearest q) = nearest q := by
    rw [nearest_of_pos hq]
    exact nearest_of_multiple (steps_le_pow hq) (le_stepAt q)
  rcases lt_trichotomy q 0 with hq | rfl | hq
  · have h := hpos (neg_pos.mpr hq)
    rwa [nearest_neg, nearest_neg, neg_inj] at h
  · rfl
  · exact hpos hq

/-- The double of a point of the grid is on the grid. -/
theorem nearest_two_mul (hq : 0 < q) (hpoint : nearest q = q) : nearest (2 * q) = 2 * q := by
  rw [nearest_of_pos hq] at hpoint
  have hdouble : 2 * q = steps q.num.natAbs q.den (stepAt q) * 2 ^ (stepAt q + 1) := by
    rw [zpow_add_one₀ two_ne_zero, ← mul_assoc, hpoint, mul_comm]
  rw [hdouble]
  exact nearest_of_multiple (steps_le_pow hq) ((le_stepAt q).trans (by omega))

/-- A natural is rounded to a natural. -/
theorem exists_nearest_natCast (n : Nat) : ∃ k : Nat, nearest n = k := by
  rcases Nat.lt_or_ge n (2 ^ 53) with hn | hn
  · exact ⟨n, nearest_natCast hn.le⟩
  · have hle : (2 : Rat) ^ (53 : Int) ≤ n := by exact_mod_cast hn
    have hq : (0 : Rat) < n := lt_of_lt_of_le (by positivity) hle
    have hstep := stepAt_of_le hq hle
    obtain ⟨m, hm⟩ := Int.eq_ofNat_of_zero_le (show 0 ≤ stepAt n by omega)
    refine ⟨steps (n : Rat).num.natAbs (n : Rat).den (stepAt n) * 2 ^ m, ?_⟩
    rw [nearest_of_pos hq, hm]
    push_cast
    rfl

/-! ## §3 Order -/

theorem nearest_nonneg (hq : 0 ≤ q) : 0 ≤ nearest q := by
  rcases hq.eq_or_lt with rfl | hpos
  · exact le_rfl
  · rw [nearest_of_pos hpos]
    positivity

/-- Rounding keeps the order. -/
theorem nearest_mono (h : q ≤ r) : nearest q ≤ nearest r := by
  have hpos {q r : Rat} (hq : 0 < q) (h : q ≤ r) : nearest q ≤ nearest r := by
    have hr := hq.trans_le h
    rcases (stepAt_mono hq h).eq_or_lt with hstep | hstep
    · -- with one step for both, what the smaller passes is passed by the greater
      rw [nearest_of_pos hq, nearest_of_pos hr, hstep]
      refine mul_le_mul_of_nonneg_right ?_ (by positivity)
      rw [Nat.cast_le]
      refine le_of_forall_lt fun k hk => ?_
      rw [lt_steps_iff (Rat.den_pos _), natAbs_div_den] at hk ⊢
      rcases hk with hk | ⟨hk, hodd⟩
      · exact .inl (hk.trans_le h)
      · exact (hk.trans_le h).lt_or_eq.imp id fun heq => ⟨heq, hodd⟩
      all_goals assumption
    · -- with a longer step at the greater, a power of two lies between the two
      calc nearest q ≤ (2 ^ 53 : Nat) * 2 ^ stepAt q := by
            refine nearest_le hq ((lt_stepAt hq).le.trans_eq ?_)
            rw [zpow_add₀ two_ne_zero, mul_comm]
            norm_num
        _ ≤ (2 ^ 52 : Nat) * 2 ^ stepAt r := by
            have : (2 : Rat) ^ (stepAt q + 1) ≤ 2 ^ stepAt r := zpow_le_zpow_right₀ one_le_two hstep
            rw [zpow_add₀ two_ne_zero, zpow_one] at this
            push_cast
            linarith
        _ ≤ nearest r := by
            refine le_nearest hr (le_trans ?_ (stepAt_pow_le hr ((le_stepAt q).trans_lt hstep)))
            rw [zpow_add₀ two_ne_zero, mul_comm]
            norm_num
  rcases le_or_gt q 0 with hq | hq
  · rcases le_or_gt 0 r with hr | hr
    · calc nearest q ≤ 0 := by
            have := nearest_nonneg (neg_nonneg.mpr hq)
            rwa [nearest_neg, neg_nonneg] at this
        _ ≤ nearest r := nearest_nonneg hr
    · have := hpos (neg_pos.mpr hr) (neg_le_neg h)
      rwa [nearest_neg, nearest_neg, neg_le_neg_iff] at this
  · exact hpos hq h

/-! ## §4 Gaps -/

/-- What is at least a power of two that the grid has, rounds to no less. -/
theorem pow_le_nearest {m : Int} (hm : -1074 ≤ m) (h : (2 : Rat) ^ m ≤ q) : (2 : Rat) ^ m ≤ nearest q := by
  have hpoint : nearest (2 ^ m) = 2 ^ m := by simpa using nearest_of_multiple (k := 1) (by norm_num) hm
  exact hpoint.symm.trans_le (nearest_mono h)

/-- From a power of two on, points of the grid are whole multiples of its `2 ^ 52`-th part. -/
theorem exists_multiple_of_pow_le {m : Int} (hq : (2 : Rat) ^ m ≤ q) (hpoint : nearest q = q) :
    ∃ k : Nat, q = k * 2 ^ (m - 52) := by
  have hpos : 0 < q := lt_of_lt_of_le (by positivity) hq
  have hstep : m - 52 ≤ stepAt q := stepAt_of_le hpos hq
  refine ⟨steps q.num.natAbs q.den (stepAt q) * 2 ^ (stepAt q - (m - 52)).toNat, ?_⟩
  push_cast
  rw [mul_assoc, ← zpow_natCast, ← zpow_add₀ two_ne_zero, Int.toNat_of_nonneg (by omega), sub_add_cancel,
    ← nearest_of_pos hpos, hpoint]

/-- The first point of the grid above a power of two is no closer than its `2 ^ 52`-th part. -/
theorem pow_add_le {m : Int} (hq : (2 : Rat) ^ m < q) (hpoint : nearest q = q) : (2 : Rat) ^ m + 2 ^ (m - 52) ≤ q := by
  have hunit : (0 : Rat) < 2 ^ (m - 52) := by positivity
  have hpow : (2 : Rat) ^ m = (2 ^ 52 : Nat) * 2 ^ (m - 52) := by
    rw [Nat.cast_pow, Nat.cast_ofNat, ← zpow_natCast, ← zpow_add₀ two_ne_zero]
    congr 1
    push_cast
    omega
  obtain ⟨k, rfl⟩ := exists_multiple_of_pow_le hq.le hpoint
  rw [hpow] at hq ⊢
  have hk : 2 ^ 52 + 1 ≤ k := by exact_mod_cast lt_of_mul_lt_mul_right hq hunit.le
  have hcast : ((2 ^ 52 : Nat) : Rat) + 1 ≤ k := by exact_mod_cast hk
  linarith [mul_le_mul_of_nonneg_right hcast hunit.le]

/-- From one on, points of the grid are whole multiples of `2 ^ (-52)`. -/
theorem exists_multiple (hq : 1 ≤ q) (hpoint : nearest q = q) : ∃ k : Nat, q = k * 2 ^ (-52 : Int) := by
  simpa using exists_multiple_of_pow_le (m := 0) (by simpa using hq) hpoint

/-- Points of the grid above one are at least `2 ^ (-52)` away from those below them. -/
theorem gap_le_sub {p : Rat} (hq : 1 < q) (hqpoint : nearest q = q) (hppoint : nearest p = p) (h : p < q) :
    (2 : Rat) ^ (-52 : Int) ≤ q - p := by
  have hunit : (0 : Rat) < 2 ^ (-52 : Int) := by positivity
  have hone : (1 : Rat) = (2 ^ 52 : Nat) * 2 ^ (-52 : Int) := by norm_num
  -- the lower one may be taken to be a multiple, too
  have hsub {r : Rat} (hr : ∃ k : Nat, r = k * 2 ^ (-52 : Int)) (hlt : r < q) : (2 : Rat) ^ (-52 : Int) ≤ q - r := by
    obtain ⟨k, rfl⟩ := hr
    obtain ⟨m, hm⟩ := exists_multiple hq.le hqpoint
    rw [hm] at hlt ⊢
    have hkm : k + 1 ≤ m := by exact_mod_cast lt_of_mul_lt_mul_right hlt hunit.le
    have hcast : (k : Rat) + 1 ≤ m := by exact_mod_cast hkm
    have := mul_le_mul_of_nonneg_right hcast hunit.le
    linarith
  by_cases hp : 1 ≤ p
  · exact hsub (exists_multiple hp hppoint) h
  · have := hsub ⟨_, hone⟩ hq
    push Not at hp
    linarith

end Reaper.Rounding
