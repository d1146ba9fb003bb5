import Mathlib.Algebra.Order.Archimedean.Basic
import Mathlib.Algebra.Order.Field.Rat
import Mathlib.Tactic.FieldSimp
import Mathlib.Tactic.Linarith
import Mathlib.Tactic.Ring
import Reaper.Bucket

/-!
The level of a bucket in exact arithmetic.

A bucket counts its tokens only when it is used. Its level at a moment is what it would count then (`level`), so that it
can be spoken of at every moment. The level grows with the rate and stops at the capacity (`level_le_add`); taking a
token lowers it by one (`Valid.take`), and a new rate cuts it to the new capacity (`Valid.setRate`).
-/

namespace Reaper

namespace Duration

/-- Seconds from a moment to a later one; nothing when they are in the wrong order. -/
def secondsTo (a b : Duration) : Rat := ((b.nanos - a.nanos : Nat) : Rat) / perSecond

theorem perSecond_pos : (0 : Rat) < perSecond := by norm_num [perSecond]

theorem secondsTo_nonneg (a b : Duration) : 0 ≤ a.secondsTo b := div_nonneg (Nat.cast_nonneg _) perSecond_pos.le

@[simp] theorem secondsTo_self (a : Duration) : a.secondsTo a = 0 := by simp [secondsTo]

/-- A way round takes no less time. -/
theorem secondsTo_le_add (a b c : Duration) : a.secondsTo c ≤ a.secondsTo b + b.secondsTo c := by
  unfold secondsTo
  rw [← add_div]
  refine div_le_div_of_nonneg_right ?_ perSecond_pos.le
  have h : c.nanos - a.nanos ≤ (b.nanos - a.nanos) + (c.nanos - b.nanos) := by omega
  exact_mod_cast h

/-- The way from a moment to a later one can be broken in between. -/
theorem secondsTo_add {a b c : Duration} (hab : a.nanos ≤ b.nanos) (hbc : b.nanos ≤ c.nanos) :
    a.secondsTo b + b.secondsTo c = a.secondsTo c := by
  have h : (b.nanos - a.nanos) + (c.nanos - b.nanos) = c.nanos - a.nanos := by omega
  rw [secondsTo, secondsTo, secondsTo, ← add_div, ← h]
  push_cast
  rfl

/-- A later end is farther away. -/
theorem secondsTo_mono (a : Duration) {b c : Duration} (h : b.nanos ≤ c.nanos) : a.secondsTo b ≤ a.secondsTo c := by
  refine div_le_div_of_nonneg_right ?_ perSecond_pos.le
  exact_mod_cast Nat.sub_le_sub_right h _

theorem seconds_exact (d : Duration) : d.seconds Rounding.exact = (d.nanos : Rat) / perSecond := by
  have h : (d.nanos : Rat) = (d.secs : Rat) * perSecond + (d.subNanos : Nat) := by
    have hdiv := Nat.div_add_mod' d.nanos perSecond
    simp only [secs, subNanos]
    exact_mod_cast hdiv.symm
  have hne : (perSecond : Rat) ≠ 0 := perSecond_pos.ne'
  simp only [seconds, Rounding.exact, id_eq, Rat.mkRat_eq_div]
  rw [h]
  field_simp
  rfl

end Duration

namespace Bucket

/-- What the bucket holds at a moment. -/
def level (b : Bucket) (now : Duration) : Rat := (b.refill Rounding.exact now).tokens

/-- A bucket as it can be: it fills, holds at least one token when full, and never more than that. -/
structure Valid (b : Bucket) : Prop where
  rate_pos : 0 < b.rate
  capacity_eq : b.capacity = capacityOf b.rate
  tokens_nonneg : 0 ≤ b.tokens
  tokens_le : b.tokens ≤ b.capacity

theorem capacityOf_eq_max (rate : Rat) : capacityOf rate = max rate 1 := by
  unfold capacityOf
  split
  · rename_i h
    exact (max_eq_right h).symm
  · rename_i h
    exact (max_eq_left (not_le.mp h).le).symm

theorem kept_eq_min (capacity tokens : Rat) : kept capacity tokens = min tokens capacity := by
  unfold kept
  split
  · rename_i h
    exact (min_eq_left h).symm
  · rename_i h
    exact (min_eq_right (not_le.mp h).le).symm

theorem one_le_capacityOf (rate : Rat) : 1 ≤ capacityOf rate := by
  rw [capacityOf_eq_max]
  exact le_max_right ..

variable {b : Bucket} {now later : Duration}

theorem level_eq (b : Bucket) (now : Duration) :
    b.level now = min (b.tokens + b.lastRefill.secondsTo now * b.rate) b.capacity := by
  have h : (elapsed b.lastRefill now).seconds Rounding.exact = b.lastRefill.secondsTo now := Duration.seconds_exact _
  simp only [level, refill, h, kept_eq_min]
  rfl

theorem refill_exact (b : Bucket) (now : Duration) :
    b.refill Rounding.exact now = ⟨b.rate, b.capacity, b.level now, now⟩ := rfl

namespace Valid

theorem level_le (h : b.Valid) (now : Duration) : b.level now ≤ capacityOf b.rate := by
  rw [level_eq, ← h.capacity_eq]
  exact min_le_right ..

theorem level_nonneg (h : b.Valid) (now : Duration) : 0 ≤ b.level now := by
  have hgained : 0 ≤ b.lastRefill.secondsTo now * b.rate := mul_nonneg (Duration.secondsTo_nonneg ..) h.rate_pos.le
  rw [level_eq]
  exact le_min (add_nonneg h.tokens_nonneg hgained) (h.tokens_nonneg.trans h.tokens_le)

/-- The level grows no faster than the rate. -/
theorem level_le_add (h : b.Valid) (now later : Duration) :
    b.level later ≤ b.level now + now.secondsTo later * b.rate := by
  have hpath := mul_le_mul_of_nonneg_right (Duration.secondsTo_le_add b.lastRefill now later) h.rate_pos.le
  have hgained : 0 ≤ now.secondsTo later * b.rate := mul_nonneg (Duration.secondsTo_nonneg ..) h.rate_pos.le
  rw [level_eq, level_eq, ← min_add_add_right]
  refine le_min ?_ ?_
  · refine (min_le_left _ _).trans ?_
    linarith
  · refine (min_le_right _ _).trans ?_
    linarith

/-- From a moment to a later one the level rises with the rate and stops at the capacity, whether or not it was counted
at the first moment. -/
theorem level_later (h : b.Valid) (hpast : b.lastRefill.nanos ≤ now.nanos) (hlater : now.nanos ≤ later.nanos) :
    b.level later = min (b.level now + now.secondsTo later * b.rate) b.capacity := by
  have hgained : 0 ≤ now.secondsTo later * b.rate := mul_nonneg (Duration.secondsTo_nonneg ..) h.rate_pos.le
  rw [level_eq, level_eq, ← min_add_add_right, min_assoc, min_eq_right (le_add_of_nonneg_right hgained), add_assoc,
    ← add_mul, Duration.secondsTo_add hpast hlater]

/-- A bucket that has just been brought up to date holds what it counts. -/
theorem level_of_lastRefill (h : b.Valid) (hnow : b.lastRefill = now) : b.level now = b.tokens := by
  rw [level_eq, hnow, Duration.secondsTo_self, zero_mul, add_zero]
  exact min_eq_left h.tokens_le

theorem full {rate : Rat} (h : 0 < rate) (now : Duration) : (Bucket.full rate now).Valid where
  rate_pos := h
  capacity_eq := rfl
  tokens_nonneg := zero_le_one.trans (one_le_capacityOf rate)
  tokens_le := le_refl _

/-- The bucket with some other tokens that fit into it. -/
theorem holding (h : b.Valid) {tokens : Rat} (hnonneg : 0 ≤ tokens) (hle : tokens ≤ b.capacity) (now : Duration) :
    (Bucket.mk b.rate b.capacity tokens now).Valid :=
  ⟨h.rate_pos, h.capacity_eq, hnonneg, hle⟩

end Valid

/-- Taking a token by the level. -/
theorem take_exact (b : Bucket) (now : Duration) :
    b.take Rounding.exact now =
      if 1 ≤ b.level now then (⟨b.rate, b.capacity, b.level now - 1, now⟩, none)
      else (⟨b.rate, b.capacity, b.level now, now⟩, some ((1 - b.level now) / b.rate)) := rfl

/-- Takes one token when there is one, and none otherwise. -/
theorem Valid.take (h : b.Valid) (now : Duration) :
    let taken := b.take Rounding.exact now
    taken.1.Valid ∧ taken.1.rate = b.rate ∧
      taken.1.level now + (if taken.2 = none then 1 else 0) = b.level now := by
  have hle : b.level now ≤ b.capacity := (h.level_le now).trans_eq h.capacity_eq.symm
  rw [take_exact]
  by_cases hone : 1 ≤ b.level now
  · have hvalid := h.holding (sub_nonneg.mpr hone) ((sub_le_self _ zero_le_one).trans hle) now
    rw [if_pos hone]
    refine ⟨hvalid, rfl, ?_⟩
    rw [hvalid.level_of_lastRefill rfl, if_pos rfl, sub_add_cancel]
  · have hvalid := h.holding (h.level_nonneg now) hle now
    rw [if_neg hone]
    refine ⟨hvalid, rfl, ?_⟩
    rw [hvalid.level_of_lastRefill rfl, if_neg (by simp), add_zero]

/-- A request is granted exactly when a token is taken. -/
theorem Valid.request (h : b.Valid) (now : Duration) :
    let asked := b.request Rounding.exact now
    asked.1.Valid ∧ asked.1.rate = b.rate ∧
      asked.1.level now + (if asked.2 = .granted then 1 else 0) = b.level now := by
  obtain ⟨hvalid, hrate, hlevel⟩ := h.take now
  unfold Bucket.request
  rcases htake : b.take Rounding.exact now with ⟨taken, _ | secs⟩ <;> rw [htake] at hvalid hrate hlevel
  · exact ⟨hvalid, hrate, by simpa using hlevel⟩
  · dsimp only
    split
    · exact ⟨hvalid, hrate, by simpa using hlevel⟩
    · exact ⟨hvalid, hrate, by simpa using hlevel⟩

theorem request_of_one_le (h : 1 ≤ b.level now) : (b.request Rounding.exact now).2 = .granted := by
  unfold Bucket.request
  rw [take_exact, if_pos h]

/-- Whatever a bucket holds, it gives a token when time enough has gone by. -/
theorem Valid.exists_granted (h : b.Valid) (now : Duration) :
    ∃ d : Duration, (b.request Rounding.exact ⟨now.nanos + d.nanos⟩).2 = .granted := by
  obtain ⟨n, hn⟩ := exists_nat_ge ((Duration.perSecond : Rat) / b.rate)
  let later : Duration := ⟨now.nanos + (b.lastRefill.nanos + n)⟩
  refine ⟨⟨b.lastRefill.nanos + n⟩, request_of_one_le ?_⟩
  have hlong : (n : Rat) ≤ (later.nanos - b.lastRefill.nanos : Nat) := by
    exact_mod_cast (show n ≤ now.nanos + (b.lastRefill.nanos + n) - b.lastRefill.nanos by omega)
  have hgain : 1 ≤ b.lastRefill.secondsTo later * b.rate := by
    rw [Duration.secondsTo, div_mul_eq_mul_div, le_div_iff₀ Duration.perSecond_pos, one_mul]
    exact ((div_le_iff₀ h.rate_pos).mp hn).trans (mul_le_mul_of_nonneg_right hlong h.rate_pos.le)
  rw [level_eq]
  refine le_min ?_ (h.capacity_eq ▸ one_le_capacityOf b.rate)
  have hnonneg := h.tokens_nonneg
  show 1 ≤ b.tokens + b.lastRefill.secondsTo later * b.rate
  linarith

/-- A rate that is taken is a positive finite number. -/
theorem eq_finite_of_rate? {x : Binary64} {rate : Rat} (h : rate? x = .ok rate) : x = .finite rate ∧ 0 < rate := by
  unfold rate? at h
  split at h
  · split at h
    · cases h
      exact ⟨rfl, ‹_›⟩
    · cases h
  · cases h

/-- A rate that is not taken is the one that was given. -/
theorem eq_badRate_of_rate? {x : Binary64} {cause : LimiterError} (h : rate? x = .error cause) :
    cause = .badRate x := by
  unfold rate? at h
  split at h
  · split at h
    · cases h
    · exact (Except.error.inj h).symm
  · exact (Except.error.inj h).symm

theorem pos_of_rate? {x : Binary64} {rate : Rat} (h : rate? x = .ok rate) : 0 < rate := (eq_finite_of_rate? h).2

/-- A new rate cuts the level to the new capacity, and does nothing else to it. -/
theorem Valid.setRate (h : b.Valid) {rate : Rat} (hrate : 0 < rate) (now : Duration) :
    let changed := b.setRate Rounding.exact now rate
    changed.Valid ∧ changed.level now = min (b.level now) changed.capacity := by
  unfold Bucket.setRate
  split
  · exact ⟨h, (min_eq_left ((h.level_le now).trans_eq h.capacity_eq.symm)).symm⟩
  · have hvalid : (Bucket.mk rate (capacityOf rate) (min (b.level now) (capacityOf rate)) now).Valid :=
      { rate_pos := hrate
        capacity_eq := rfl
        tokens_nonneg := le_min (h.level_nonneg now) (zero_le_one.trans (one_le_capacityOf rate))
        tokens_le := min_le_right .. }
    simp only [refill_exact, kept_eq_min]
    exact ⟨hvalid, hvalid.level_of_lastRefill rfl⟩

end Bucket

end Reaper
