import Reaper.Proofs.Binary64.Grid
import Reaper.Proofs.Bucket.Level

/-!
The level of a bucket as the program counts it.

Rounded, the level of a bucket depends on when it was counted before, so it is spoken of moment by moment: `count` is
what the program counts at a moment. A new rate cuts that to the new capacity and does nothing else to it
(`OnGrid.count_setRate`), whether or not the change is so small that it is left out.
-/

namespace Reaper.Bucket

open Rounding (nearest nearest_nearest)

/-- The resolution of rates is a gap of the grid. -/
theorem rateResolution_eq : rateResolution = 2 ^ (-52 : Int) := by
  norm_num [rateResolution, Rat.mkRat_eq_div, Nat.shiftLeft_eq]

/-- Rates that count as the same have the same capacity. -/
theorem capacityOf_of_close {p q : Rat} (hp : nearest p = p) (hq : nearest q = q)
    (h : (nearest (p - q)).abs < rateResolution) : capacityOf p = capacityOf q := by
  have habs (x : Rat) : x ≤ x.abs ∧ -x ≤ x.abs := by
    unfold Rat.abs
    split <;> constructor <;> linarith
  -- a rate above one has no other one so close below it
  have hfar {a b : Rat} (ha : nearest a = a) (hb : nearest b = b) (hone : 1 < a) (hlt : b < a) :
      rateResolution ≤ nearest (a - b) := by
    rw [rateResolution_eq]
    exact Rounding.pow_le_nearest (by omega) (Rounding.gap_le_sub hone ha hb hlt)
  rw [capacityOf_eq_max, capacityOf_eq_max]
  rcases lt_trichotomy p q with hlt | rfl | hlt
  · by_cases hone : 1 < q
    · have hclose := hfar hq hp hone hlt
      rw [← neg_sub p q, Rounding.nearest_neg] at hclose
      exact absurd (hclose.trans (habs _).2) h.not_ge
    · rw [max_eq_right (not_lt.mp hone), max_eq_right (hlt.le.trans (not_lt.mp hone))]
  · rfl
  · by_cases hone : 1 < p
    · exact absurd ((hfar hp hq hone hlt).trans (habs _).1) h.not_ge
    · rw [max_eq_right (not_lt.mp hone), max_eq_right (hlt.le.trans (not_lt.mp hone))]

/-- What the program counts in the bucket at a moment. -/
def count (b : Bucket) (now : Duration) : Rat := (b.refill nearest now).tokens

/-- Taking a token by what is counted. -/
theorem take_nearest (b : Bucket) (now : Duration) :
    b.take nearest now =
      if 1 ≤ b.count now then (⟨b.rate, b.capacity, nearest (b.count now - 1), now⟩, none)
      else (⟨b.rate, b.capacity, b.count now, now⟩, some (nearest (nearest (1 - b.count now) / b.rate))) := rfl

/-- A bucket of a rate on the grid. -/
structure OnGrid (b : Bucket) : Prop where
  rate : nearest b.rate = b.rate
  capacity_eq : b.capacity = capacityOf b.rate

variable {b : Bucket} {now : Duration} {q : Rat}

theorem nearest_capacityOf (hq : nearest q = q) : nearest (capacityOf q) = capacityOf q := by
  unfold capacityOf
  split
  · decide +kernel
  · exact hq

theorem count_le_capacity (b : Bucket) (now : Duration) : b.count now ≤ b.capacity := by
  simp only [count, refill, kept_eq_min]
  exact min_le_right ..

/-- What is counted is on the grid. -/
theorem OnGrid.nearest_count (h : b.OnGrid) (now : Duration) : nearest (b.count now) = b.count now := by
  simp only [count, refill, kept]
  split
  · exact nearest_nearest _
  · rw [h.capacity_eq]
    exact nearest_capacityOf h.rate

/-- Where no time has gone by, nothing comes in. -/
theorem count_of_le (hnow : now.nanos ≤ b.lastRefill.nanos) (htokens : nearest b.tokens = b.tokens) :
    b.count now = min b.tokens b.capacity := by
  have helapsed : (elapsed b.lastRefill now).seconds nearest = 0 := by
    have : elapsed b.lastRefill now = .zero := congrArg Duration.mk (Nat.sub_eq_zero_of_le hnow)
    rw [this]
    decide +kernel
  simp only [count, refill, helapsed, zero_mul, Rounding.nearest_zero, add_zero, htokens, kept_eq_min]

/-- Counting again at the same moment counts the same. -/
theorem count_of_lastRefill (hnow : b.lastRefill = now) (htokens : nearest b.tokens = b.tokens)
    (hle : b.tokens ≤ b.capacity) : b.count now = b.tokens :=
  (count_of_le (hnow ▸ Nat.le_refl _) htokens).trans (min_eq_left hle)

theorem onGrid_full (hq : nearest q = q) (now : Duration) : (Bucket.full q now).OnGrid := ⟨hq, rfl⟩

theorem OnGrid.setRate (h : b.OnGrid) (hq : nearest q = q) (now : Duration) : (b.setRate nearest now q).OnGrid := by
  unfold Bucket.setRate
  split
  · exact h
  · exact ⟨hq, rfl⟩

/-- A new rate cuts what is counted to the new capacity, and does nothing else to it. -/
theorem OnGrid.count_setRate (h : b.OnGrid) (hq : nearest q = q) (now : Duration) :
    (b.setRate nearest now q).count now = min (b.count now) (capacityOf q) := by
  unfold Bucket.setRate
  split
  · rename_i hclose
    have hcapacity := (h.capacity_eq.trans (capacityOf_of_close h.rate hq hclose)).symm
    rw [hcapacity]
    exact (min_eq_left (count_le_capacity b now)).symm
  · have hpoint : nearest (kept (capacityOf q) (b.count now)) = kept (capacityOf q) (b.count now) := by
      unfold kept
      split
      · exact h.nearest_count now
      · exact nearest_capacityOf hq
    have hle : kept (capacityOf q) (b.count now) ≤ capacityOf q := by
      rw [kept_eq_min]
      exact min_le_right ..
    refine (count_of_lastRefill rfl ?_ ?_).trans (kept_eq_min ..)
    · exact hpoint
    · exact hle

/-- Asking for a token leaves a bucket its rate and its capacity. -/
theorem OnGrid.request (h : b.OnGrid) (now : Duration) : (b.request nearest now).1.OnGrid := by
  have htake : (b.take nearest now).1.OnGrid := by
    unfold Bucket.take
    dsimp only
    split <;> exact ⟨h.rate, h.capacity_eq⟩
  unfold Bucket.request
  split
  · rename_i heq
    rwa [heq] at htake
  · rename_i heq
    rw [heq] at htake
    split <;> exact htake

end Reaper.Bucket
