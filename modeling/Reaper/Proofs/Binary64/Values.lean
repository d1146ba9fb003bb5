import Reaper.Binary64
import Reaper.Proofs.Binary64.Grid

/-!
Arithmetic of binary64 numbers by the rationals that they denote.

Sums, products and quotients denote what is rounded from the sum, product or quotient of the rationals, as long as that
stays far below the greatest finite number; the sign of a zero plays no part (`toRat?_add`, `toRat?_mul`, `toRat?_div`).
Numbers that come from rounding are on the grid (`onGrid_ofRat`, `onGrid_mul`).
-/

namespace Reaper.Binary64

open Rounding (nearest nearest_mono nearest_nearest)

variable {x y : Binary64} {p q : Rat}

theorem toRat?_eq_some : x.toRat? = some q ↔ x = finite q ∨ x = negativeZero ∧ q = 0 := by
  cases x <;> simp [toRat?, eq_comm]

theorem eq_finite (h : x.toRat? = some q) (hq : q ≠ 0) : x = finite q :=
  (toRat?_eq_some.mp h).resolve_right fun hzero => hq hzero.2

/-- The number is on the grid, if it is finite. -/
def OnGrid (x : Binary64) : Prop := ∀ q, x = finite q → nearest q = q

theorem OnGrid.nearest_eq (h : x.OnGrid) (hx : x.toRat? = some q) : nearest q = q := by
  rcases toRat?_eq_some.mp hx with hq | ⟨-, rfl⟩
  · exact h q hq
  · exact Rounding.nearest_zero

/-- What is made of a rational is on the grid. -/
theorem onGrid_ofRat (q : Rat) (zeroNegative : Bool := false) : (ofRat q zeroNegative).OnGrid := by
  intro p hp
  unfold ofRat zero at hp
  dsimp only at hp
  repeat' split at hp
  all_goals cases hp
  any_goals exact Rounding.nearest_zero
  exact nearest_nearest q

/-- Products are on the grid, whatever the factors are. -/
theorem onGrid_mul (x y : Binary64) : (x * y).OnGrid := by
  change (mul x y).OnGrid
  unfold mul
  dsimp only
  repeat' split
  all_goals first
    | exact onGrid_ofRat _ _
    | exact fun _ h => nomatch h

theorem toRat?_zero (negative : Bool) : (zero negative).toRat? = some 0 := by
  cases negative <;> rfl

theorem overflow_pos : 0 < overflow := by decide +kernel

/-- What is made of a rational denotes what the rational is rounded to, unless that is past the greatest finite
number. -/
theorem toRat?_ofRat_eq (q : Rat) (negative : Bool) :
    (ofRat q negative).toRat? = if |nearest q| < overflow then some (nearest q) else none := by
  unfold ofRat
  dsimp only
  split
  · rename_i hzero
    rw [toRat?_zero, hzero, if_pos (by simpa using overflow_pos)]
  split
  · rename_i hge
    rw [if_neg (not_lt.mpr (hge.trans (le_abs_self _)))]
    rfl
  split
  · rename_i hle
    rw [if_neg (not_lt.mpr ((le_neg.mp hle).trans (neg_le_abs _)))]
    rfl
  · rename_i hge hle
    rw [if_pos (abs_lt.mpr ⟨not_le.mp hle, not_le.mp hge⟩)]
    rfl

/-- Rounding far below the greatest finite number stays finite. -/
theorem toRat?_ofRat (negative : Bool) (h : |q| ≤ 2 ^ 128) : (ofRat q negative).toRat? = some (nearest q) := by
  have hbound : nearest (2 ^ 128) = 2 ^ 128 := by
    exact_mod_cast Rounding.nearest_of_multiple (k := 1) (by norm_num) (u := 128) (by omega)
  have hoverflow : (2 : Rat) ^ 128 < overflow := by decide +kernel
  have hlow := nearest_mono (neg_le_of_abs_le h)
  have hhigh := nearest_mono (le_of_abs_le h)
  rw [Rounding.nearest_neg] at hlow
  rw [hbound] at hlow hhigh
  rw [toRat?_ofRat_eq, if_pos ((abs_le.mpr ⟨hlow, hhigh⟩).trans_lt hoverflow)]

/-- A positive whole number that needs no more than 53 bits is read as itself. -/
theorem ofInt_natCast {n : Nat} (h0 : 0 < n) (hn : n ≤ 2 ^ 53) : ofInt n = finite n := by
  have hpos : (0 : Rat) < n := Nat.cast_pos.mpr h0
  have hbound : |((n : Int) : Rat)| ≤ 2 ^ 128 := by
    rw [Int.cast_natCast, abs_of_pos hpos]
    exact_mod_cast hn.trans (by decide)
  refine eq_finite ((toRat?_ofRat false hbound).trans ?_) hpos.ne'
  rw [Int.cast_natCast, Rounding.nearest_natCast hn]

theorem toRat?_neg (x : Binary64) : (-x).toRat? = x.toRat?.map (- ·) := by
  change (neg x).toRat? = _
  cases x with
  | finite q =>
    unfold neg
    dsimp only
    split
    · rename_i hzero
      simp [toRat?, hzero]
    · rfl
  | negativeZero => rfl
  | infinite s => rfl
  | nan => rfl

theorem toRat?_mul (hx : x.toRat? = some p) (hy : y.toRat? = some q) (h : |p * q| ≤ 2 ^ 128) :
    (x * y).toRat? = some (nearest (p * q)) := by
  change (mul x y).toRat? = _
  rcases toRat?_eq_some.mp hx with rfl | ⟨rfl, rfl⟩ <;> rcases toRat?_eq_some.mp hy with rfl | ⟨rfl, rfl⟩
  all_goals exact toRat?_ofRat _ h

theorem toRat?_add (hx : x.toRat? = some p) (hy : y.toRat? = some q) (hp : nearest p = p) (hq : nearest q = q)
    (h : |p + q| ≤ 2 ^ 128) : (x + y).toRat? = some (nearest (p + q)) := by
  change (add x y).toRat? = _
  rcases toRat?_eq_some.mp hx with rfl | ⟨rfl, rfl⟩ <;> rcases toRat?_eq_some.mp hy with rfl | ⟨rfl, rfl⟩
  · exact toRat?_ofRat _ h
  · rw [add_zero, hp]
    rfl
  · rw [zero_add, hq]
    rfl
  · rw [add_zero, hp]
    rfl

theorem toRat?_sub (hx : x.toRat? = some p) (hy : y.toRat? = some q) (hp : nearest p = p) (hq : nearest q = q)
    (h : |p - q| ≤ 2 ^ 128) : (x - y).toRat? = some (nearest (p - q)) := by
  have hneg : (-y).toRat? = some (-q) := by rw [toRat?_neg, hy, Option.map_some]
  rw [sub_eq_add_neg] at h ⊢
  exact toRat?_add hx hneg hp (by rw [Rounding.nearest_neg, hq]) h

theorem toRat?_div (hx : x.toRat? = some p) (hy : y.toRat? = some q) (hq : q ≠ 0) (h : |p / q| ≤ 2 ^ 128) :
    (x / y).toRat? = some (nearest (p / q)) := by
  change (div x y).toRat? = _
  rcases toRat?_eq_some.mp hy with rfl | ⟨rfl, rfl⟩
  · rcases toRat?_eq_some.mp hx with rfl | ⟨rfl, rfl⟩
    all_goals exact (congrArg toRat? (if_neg hq)).trans (toRat?_ofRat _ h)
  · exact absurd rfl hq

theorem lt_eq (hx : x.toRat? = some p) (hy : y.toRat? = some q) : x.lt y = decide (p < q) := by
  rcases toRat?_eq_some.mp hx with rfl | ⟨rfl, rfl⟩ <;> rcases toRat?_eq_some.mp hy with rfl | ⟨rfl, rfl⟩ <;> rfl

theorem same_eq (hx : x.toRat? = some p) (hy : y.toRat? = some q) : x.same y = decide (p = q) := by
  rcases toRat?_eq_some.mp hx with rfl | ⟨rfl, rfl⟩ <;> rcases toRat?_eq_some.mp hy with rfl | ⟨rfl, rfl⟩ <;> rfl

theorem le_eq (hx : x.toRat? = some p) (hy : y.toRat? = some q) : x.le y = decide (p ≤ q) := by
  rw [le, lt_eq hx hy, same_eq hx hy, ← Bool.decide_or, decide_eq_decide]
  exact le_iff_lt_or_eq.symm

end Reaper.Binary64
