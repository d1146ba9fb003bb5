import Mathlib.Data.List.TakeWhile
import Reaper.Binary64.Reader
import Reaper.Proofs.Binary64.Values
import Reaper.Proofs.Text.Digits

/-!
# Integers as binary64 numbers

The text of a natural is read as the number that the natural is rounded to (`read?_natText`). Two integers are the same
number when they are rounded to one finite number (`SameNumber`). Then they are less than `epsilon` apart, and otherwise
they are not (`abs_sub_lt_epsilon_iff`), because the numbers that integers are rounded to are integers again. Below
`2 ^ 53` no integer is the same number as another (`SameNumber.eq_of_lt`).

  §1 Reading     — what the text of a natural is read as.
  §2 Rounding    — integers that are the same number.
  §3 Differences — which of them are close.
-/

namespace Reaper.Binary64

open Rounding (nearest nearest_mono nearest_neg)
open Text (digitsOf natText isDigit isDigit_of_mem_digitsOf)

variable {x y : Binary64} {p q : Rat} {i j : Int}

/-! ## §1 Reading -/

theorem nearest_overflow : nearest overflow = overflow := by decide +kernel

/-- A natural in decimal is the number that the natural is rounded to, also where the count of its digits alone settles
that it is too large. -/
theorem ofDecimal_natCast (n : Nat) : ofDecimal false n 0 = ofInt n := by
  unfold ofDecimal
  split
  · rename_i hzero
    subst hzero
    rfl
  dsimp only
  rw [add_zero]
  split
  · rename_i hlong
    have hlarge : 10 ^ 400 ≤ n := by
      by_contra hlt
      have := Text.length_digitsOf_le (by omega) (not_le.mp hlt)
      omega
    have hround : overflow ≤ nearest n := by
      rw [← nearest_overflow]
      exact nearest_mono (Nat.cast_le.mpr (Nat.le_trans (by decide +kernel) hlarge))
    unfold ofInt ofRat
    dsimp only
    rw [Int.cast_natCast, if_neg (overflow_pos.trans_le hround).ne', if_pos hround]
  · rw [if_neg (by omega)]
    simp [ofInt]

theorem readMagnitude?_digitsOf (n : Nat) : readMagnitude? false (digitsOf n) = some (ofInt n) := by
  have hdigit : ∀ c ∈ digitsOf n, isDigit c = true := fun _ => isDigit_of_mem_digitsOf
  have hlower : lowerAscii (digitsOf n) = digitsOf n :=
    (List.map_congr_left fun c hc => Text.toLower_of_isDigit (hdigit c hc)).trans (List.map_id' _)
  have hwhole : (digitsOf n).takeWhile isDigit = digitsOf n := List.takeWhile_eq_self_iff.mpr hdigit
  have hrest : (digitsOf n).dropWhile isDigit = [] := List.dropWhile_eq_nil_iff.mpr hdigit
  -- the words for what is no number begin with letters
  have hinf : ¬ (digitsOf n = "inf".toList ∨ digitsOf n = "infinity".toList) :=
    not_or.mpr ⟨Text.digitsOf_ne_cons (by decide) "nf".toList, Text.digitsOf_ne_cons (by decide) "nfinity".toList⟩
  have hnan : digitsOf n ≠ "nan".toList := Text.digitsOf_ne_cons (by decide) "an".toList
  unfold readMagnitude?
  dsimp only
  rw [hlower, if_neg hinf, if_neg hnan, hwhole, hrest]
  simp [Text.digitsOf_ne_nil, readExponent?, Text.digitsOnto_digitsOf, ofDecimal_natCast]

/-- The text of a natural is read as the number that the natural is rounded to. -/
theorem read?_natText (n : Nat) : read? (Text.trim (natText n).toList) = some (ofInt n) := by
  rw [natText, String.toList_ofList, Text.trim_digitsOf]
  unfold read?
  split
  · exact absurd ‹_› (Text.digitsOf_ne_cons (by decide) _)
  · exact absurd ‹_› (Text.digitsOf_ne_cons (by decide) _)
  · exact readMagnitude?_digitsOf n

/-! ## §2 Rounding -/

/-- Integers that are rounded to one finite number. -/
def SameNumber (i j : Int) : Prop := ∃ q, (ofInt i).toRat? = some q ∧ (ofInt j).toRat? = some q

theorem SameNumber.nearest_eq (h : SameNumber i j) : nearest i = nearest j := by
  obtain ⟨q, hi, hj⟩ := h
  have hround {i : Int} (hi : (ofInt i).toRat? = some q) : nearest i = q := by
    rw [ofInt, toRat?_ofRat_eq] at hi
    split at hi
    · exact Option.some.inj hi
    · cases hi
  rw [hround hi, hround hj]

theorem lt_of_nearest_lt (h : nearest i < nearest j) : i < j := by
  by_contra hle
  exact absurd h (not_lt.mpr (nearest_mono (Int.cast_le.mpr (not_lt.mp hle))))

/-- Below `2 ^ 53` an integer is the same number as no other. -/
theorem SameNumber.eq_of_lt (h : SameNumber i j) (hi : i.natAbs < 2 ^ 53) : i = j := by
  have hexact {k : Int} (hk : k.natAbs ≤ 2 ^ 53) : nearest k = k := Rounding.nearest_intCast hk
  have hround : nearest j = i := by rw [← h.nearest_eq, hexact hi.le]
  -- the two bounds stay where they are, so `j` is between them
  have hhigh : j < 2 ^ 53 := lt_of_nearest_lt (by
    rw [hround, hexact (by decide), Int.cast_lt]
    omega)
  have hlow : -2 ^ 53 < j := lt_of_nearest_lt (by
    rw [hround, hexact (by decide), Int.cast_lt]
    omega)
  rw [hexact (by omega)] at hround
  exact (Int.cast_injective hround).symm

/-- At `2 ^ 53` that ends. -/
theorem sameNumber_pow_succ : SameNumber 9007199254740993 9007199254740992 := by
  have hround : nearest (9007199254740993 : Int) = 9007199254740992 := by decide +kernel
  have hpow : nearest (9007199254740992 : Int) = 9007199254740992 := by decide +kernel
  have hfinite : |(9007199254740992 : Rat)| < overflow := by decide +kernel
  refine ⟨9007199254740992, ?_, ?_⟩
  · rw [ofInt, toRat?_ofRat_eq, hround, if_pos hfinite]
  · rw [ofInt, toRat?_ofRat_eq, hpow, if_pos hfinite]

/-- An integer is rounded to an integer. -/
theorem exists_nearest_intCast (i : Int) : ∃ k : Int, nearest i = k := by
  obtain ⟨k, hk⟩ := Rounding.exists_nearest_natCast i.natAbs
  rcases Int.natAbs_eq i with h | h
  · exact ⟨k, by rw [h, Int.cast_natCast, hk, Int.cast_natCast]⟩
  · exact ⟨-k, by rw [h, Int.cast_neg, Int.cast_natCast, nearest_neg, hk, Int.cast_neg, Int.cast_natCast]⟩

theorem exists_toRat?_ofInt (i : Int) :
    (∃ k : Int, (ofInt i).toRat? = some (k : Rat)) ∨ (ofInt i).toRat? = none := by
  obtain ⟨k, hk⟩ := exists_nearest_intCast i
  rw [ofInt, toRat?_ofRat_eq, hk]
  split
  · exact .inl ⟨k, rfl⟩
  · exact .inr rfl

/-! ## §3 Differences -/

theorem toRat?_epsilon : epsilon.toRat? = some (2 ^ (-52 : Int)) := by
  rw [epsilon, toRat?, Nat.shiftLeft_eq, Rat.mkRat_eq_div]
  norm_num

theorem toRat?_abs (x : Binary64) : x.abs.toRat? = x.toRat?.map (|·|) := by
  cases x with
  | finite r =>
    have hr : r.abs = |r| := by
      unfold Rat.abs
      split
      · exact (abs_of_nonneg ‹_›).symm
      · exact (abs_of_neg (not_le.mp ‹_›)).symm
    simp [abs, toRat?, hr]
  | negativeZero => simp [abs, toRat?]
  | infinite s => rfl
  | nan => rfl

/-- A number that is not finite, or no less than one, is not close to zero. -/
theorem abs_not_lt_epsilon (h : ∀ r, x.toRat? = some r → 1 ≤ |r|) : (x.abs).lt epsilon = false := by
  cases hx : x.toRat? with
  | some r =>
    have hsmall : (2 : Rat) ^ (-52 : Int) < 1 := by norm_num
    rw [lt_eq ((toRat?_abs x).trans (by rw [hx]; rfl)) toRat?_epsilon, decide_eq_false_iff_not, not_lt]
    exact hsmall.le.trans (h r hx)
  | none => cases x <;> first | rfl | simp [toRat?] at hx

theorem one_le_abs_intCast {d : Int} (hd : d ≠ 0) : (1 : Rat) ≤ |(d : Rat)| := by
  exact_mod_cast Int.one_le_abs hd

theorem one_le_abs_nearest {d : Int} (hd : d ≠ 0) : 1 ≤ |nearest d| := by
  have hpos {d : Int} (hd : 1 ≤ d) : 1 ≤ nearest d := by
    rw [← Rounding.nearest_one]
    exact nearest_mono (by exact_mod_cast hd)
  rcases (by omega : 1 ≤ d ∨ 1 ≤ -d) with h | h
  · exact (hpos h).trans (le_abs_self _)
  · have := hpos h
    rw [Int.cast_neg, nearest_neg] at this
    exact this.trans (neg_le_abs _)

/-- A difference is rounded once, or denotes the difference as it is. -/
theorem sub_cases (hx : x.toRat? = some p) (hy : y.toRat? = some q) :
    x - y = ofRat (p - q) ∨ (x - y).toRat? = some (p - q) := by
  change sub x y = _ ∨ (sub x y).toRat? = _
  rw [sub_eq_add_neg]
  rcases toRat?_eq_some.mp hx with rfl | ⟨rfl, rfl⟩ <;> rcases toRat?_eq_some.mp hy with rfl | ⟨rfl, rfl⟩
  · by_cases hq : q = 0
    · exact .inr (by simp [sub, neg, add, toRat?, hq])
    · exact .inl (by simp [sub, neg, add, hq])
  · exact .inl (by simp [sub, neg, add])
  · by_cases hq : q = 0
    · exact .inr (by simp [sub, neg, add, toRat?, hq])
    · exact .inr (by simp [sub, neg, add, toRat?, hq])
  · exact .inr (by simp [sub, neg, add, toRat?])

/-- Whole numbers are close when they are equal. -/
theorem abs_sub_lt_epsilon_of_whole {k l : Int} (hx : x.toRat? = some (k : Rat)) (hy : y.toRat? = some (l : Rat)) :
    ((x - y).abs).lt epsilon = true ↔ k = l := by
  have hsub := sub_cases hx hy
  rw [← Int.cast_sub] at hsub
  constructor
  · intro hclose
    by_contra hne
    have hd : k - l ≠ 0 := sub_ne_zero.mpr hne
    refine Bool.noConfusion (hclose.symm.trans (abs_not_lt_epsilon fun r hr => ?_))
    rcases hsub with hsub | hsub
    · rw [hsub, toRat?_ofRat_eq] at hr
      split at hr
      · exact Option.some.inj hr ▸ one_le_abs_nearest hd
      · cases hr
    · rw [hsub] at hr
      exact Option.some.inj hr ▸ one_le_abs_intCast hd
  · rintro rfl
    have hzero : (x - y).toRat? = some 0 := by
      rw [sub_self, Int.cast_zero] at hsub
      exact hsub.elim (fun h => h ▸ rfl) id
    rw [lt_eq ((toRat?_abs _).trans (by rw [hzero]; rfl)) toRat?_epsilon]
    simp

theorem toRat?_sub_eq_none (hx : x.toRat?.isSome) (hy : y.toRat? = none) : (x - y).toRat? = none := by
  change (add x (neg y)).toRat? = none
  cases x <;> cases y <;> first | rfl | simp [toRat?] at hx hy

/-- Of a finite number and another, integers are close when they are the same number. -/
theorem abs_sub_lt_epsilon_iff (hi : (ofInt i).isFinite = true) :
    ((ofInt i - ofInt j).abs).lt epsilon = true ↔ SameNumber i j := by
  rcases exists_toRat?_ofInt i with ⟨k, hk⟩ | hnone
  · rcases exists_toRat?_ofInt j with ⟨l, hl⟩ | hnone
    · rw [abs_sub_lt_epsilon_of_whole hk hl, SameNumber, hk, hl]
      simp [eq_comm]
    · have hfar := abs_not_lt_epsilon (x := ofInt i - ofInt j) fun r hr => by
        rw [toRat?_sub_eq_none hi hnone] at hr
        cases hr
      exact iff_of_false (by simp [hfar]) fun ⟨q, _, hq⟩ => by simp [hnone] at hq
  · simp [isFinite, hnone] at hi

end Reaper.Binary64
