import Reaper.Proofs.Bucket.Rate
import Reaper.Proofs.Bucket.Waits

/-!
How often a token is asked for in vain.

A bucket that fills in good time (`Brisk`) holds noticeably more at every millisecond at which it is asked, as long as
it does not hold a token: a thousandth of its rate comes in, and rounding takes next to nothing of that
(`count_rises`). So what is missing of a token, counted in what comes in (`lack`), goes down with every try in vain,
unless the try before it was at the same millisecond.

  §1 Rising — what comes in between two milliseconds.
  §2 Tries  — how many tries in vain there can be before the next token (`dearth`).
-/

namespace Reaper.Bucket

open Rounding (nearest nearest_mono nearest_nonneg nearest_nearest)

variable {b : Bucket} {now : Duration}

/-! ## §1 Rising -/

/-- A bucket that fills in good time: with a token in some hundred years at the latest, which is enough for rounding to
lose only a little of what comes in in a millisecond. -/
structure Brisk (b : Bucket) : Prop where
  fills : b.Fills
  brisk : (2 : Rat) ^ (-32 : Int) ≤ b.rate

/-- A rate of a token a second, or more, is enough. -/
theorem Brisk.of_one_le (h : b.Fills) (hone : 1 ≤ b.rate) : b.Brisk := ⟨h, le_trans (by norm_num) hone⟩

theorem Brisk.rate_pos (h : b.Brisk) : 0 < b.rate := h.fills.rate_pos

/-- A rate of a token a second, or more, that a limiter may come to. -/
structure IsBriskRate (q : Rat) : Prop where
  onGrid : nearest q = q
  one_le : 1 ≤ q

namespace IsBriskRate

variable {q : Rat}

theorem fast (h : IsBriskRate q) : (2 : Rat) ^ (-64 : Int) < q := lt_of_lt_of_le (by norm_num) h.one_le

/-- A number of tokens a second is such a rate, if it is a rate at all. -/
theorem of_rate?_ofInt {n : Nat} (h : rate? (.ofInt n) = .ok q) : IsBriskRate q := by
  obtain ⟨heq, hpos⟩ := eq_finite_of_rate? h
  have hq : q = nearest n := by
    have hread := Binary64.toRat?_ofRat_eq n false
    rw [show Binary64.ofRat n false = .ofInt n from rfl, heq] at hread
    split at hread
    · exact Option.some.inj hread
    · cases hread
  refine ⟨by rw [hq, nearest_nearest], ?_⟩
  have hone : 1 ≤ n := by
    refine Nat.one_le_iff_ne_zero.mpr fun hzero => ?_
    rw [hq, hzero, Nat.cast_zero, Rounding.nearest_zero] at hpos
    exact hpos.ne rfl
  rw [hq, ← Rounding.nearest_one]
  exact nearest_mono (by exact_mod_cast hone)

end IsBriskRate

theorem Brisk.full {q : Rat} (hq : IsBriskRate q) (now : Duration) : (Bucket.full q now).Brisk :=
  .of_one_le (.full hq.onGrid hq.fast now) hq.one_le

theorem Brisk.setRate {q : Rat} (h : b.Brisk) (hq : IsBriskRate q) (now : Duration) :
    (b.setRate nearest now q).Brisk := by
  refine ⟨h.fills.setRate hq.onGrid hq.fast now, ?_⟩
  unfold Bucket.setRate
  split
  · exact h.brisk
  · exact le_trans (by norm_num) hq.one_le

/-- A duration of a millisecond or more counts at least as many seconds. -/
theorem le_seconds {d : Duration} (h : Duration.perMilli ≤ d.nanos) : 999 / 1000000 ≤ d.seconds nearest := by
  have hshort : (999 / 1000000 : Rat) ≤ nearest (1 / 1000) := by decide +kernel
  have hfraction : (0 : Rat) ≤ mkRat d.subNanos Duration.perSecond := by
    rw [Rat.mkRat_eq_div]
    positivity
  refine hshort.trans ((nearest_nearest _).symm.trans_le (nearest_mono ?_))
  rcases Nat.eq_zero_or_pos d.secs with hsecs | hsecs
  · -- all of it is in the fraction
    have hnanos : d.subNanos = d.nanos := Nat.mod_eq_of_lt (Nat.lt_of_div_eq_zero (by decide) hsecs)
    rw [hsecs, hnanos, Nat.cast_zero, Rounding.nearest_zero, zero_add, Rat.mkRat_eq_div]
    have hmilli : 1 * Duration.perSecond ≤ d.nanos * 1000 := by
      simp only [Duration.perMilli, Duration.perSecond] at h ⊢
      omega
    refine nearest_mono ((div_le_div_iff₀ (by norm_num) (by norm_num [Duration.perSecond])).mpr ?_)
    exact_mod_cast hmilli
  · have hone : 1 ≤ nearest (d.secs : Rat) := Rounding.nearest_one.symm.trans_le (nearest_mono (by exact_mod_cast hsecs))
    have hless : nearest (1 / 1000) ≤ 1 := (nearest_mono (by norm_num)).trans_eq Rounding.nearest_one
    linarith [nearest_nonneg hfraction]

/-- As long as there is no token, at least the 1024th part of the rate comes in from one millisecond to another. -/
theorem Brisk.count_rises (h : b.Brisk) (hlater : b.lastRefill.nanos + Duration.perMilli ≤ now.nanos)
    (hnone : b.count now < 1) : b.tokens + b.rate / 1024 ≤ b.count now := by
  let d := elapsed b.lastRefill now
  have hsecs : 999 / 1000000 ≤ d.seconds nearest := le_seconds (by simp only [d, elapsed]; omega)
  have hflow : 0 ≤ d.seconds nearest * b.rate := mul_nonneg (Duration.seconds_nonneg _) h.rate_pos.le
  have hgained : 0 ≤ nearest (d.seconds nearest * b.rate) := nearest_nonneg hflow
  have hsum : 0 ≤ b.tokens + nearest (d.seconds nearest * b.rate) := add_nonneg h.fills.tokens_nonneg hgained
  -- where no token is counted, nothing has reached one before it was rounded
  have hreached {q : Rat} (hq : nearest q < 1) : q < 1 := by
    by_contra hone
    exact hq.not_ge (Rounding.nearest_one.symm.trans_le (nearest_mono (not_lt.mp hone)))
  have hcount : b.count now = nearest (b.tokens + nearest (d.seconds nearest * b.rate)) := by
    simp only [count, refill, kept_eq_min] at hnone ⊢
    refine min_eq_left (le_of_lt ?_)
    have hcapacity : 1 ≤ b.capacity := h.fills.onGrid.capacity_eq.symm ▸ one_le_capacityOf b.rate
    rcases min_lt_iff.mp hnone with hlt | hlt
    · exact hlt.trans_le hcapacity
    · exact absurd hcapacity hlt.not_ge
  have hsumlt : b.tokens + nearest (d.seconds nearest * b.rate) < 1 := hreached (hcount ▸ hnone)
  have hflowlt : d.seconds nearest * b.rate < 1 :=
    hreached (lt_of_le_of_lt (le_add_of_nonneg_left h.fills.tokens_nonneg) hsumlt)
  -- what rounding takes, both times, is small beside what comes in
  have hfirst := Rounding.sub_le_nearest hflow hflowlt
  have hsecond := Rounding.sub_le_nearest hsum hsumlt
  have henough : 999 / 1000000 * b.rate ≤ d.seconds nearest * b.rate := mul_le_mul_of_nonneg_right hsecs h.rate_pos.le
  have hbrisk := h.brisk
  rw [hcount]
  norm_num at hfirst hsecond hbrisk
  linarith

/-! ## §2 Tries -/

theorem vainTries_congr {b' : Bucket} (h : b'.rate = b.rate) : b'.vainTries = b.vainTries := by
  unfold vainTries
  rw [h]

/-- What is missing of a token, counted in 1024th parts of the rate. -/
def lack (b : Bucket) : Nat := ⌈(1 - b.tokens) * 1024 / b.rate⌉₊

theorem Brisk.lack_le (h : b.Brisk) : b.lack ≤ b.vainTries := by
  refine Nat.ceil_le.mpr ?_
  have hwhole : (1 - b.tokens) * 1024 / b.rate ≤ 1024 / b.rate := by
    have := h.fills.tokens_nonneg
    have := h.rate_pos
    gcongr
    linarith
  have hceil : ((1024 / b.rate).ceil : Rat) ≤ ((1024 / b.rate).ceil.toNat : Nat) := by
    exact_mod_cast Int.self_le_toNat _
  exact hwhole.trans (Rat.le_ceil.trans hceil)

/-- When a part has come in there is one less missing. -/
theorem lack_lt {b' : Bucket} (h : 0 < b.rate) (hrate : b'.rate = b.rate)
    (hrises : b.tokens + b.rate / 1024 ≤ b'.tokens) (hnone : b'.tokens < 1) : b'.lack < b.lack := by
  have hpos : 0 ≤ (1 - b'.tokens) * 1024 / b.rate := by
    have := sub_pos.mpr hnone
    positivity
  refine Nat.lt_ceil.mpr ?_
  rw [lack, hrate]
  calc (⌈(1 - b'.tokens) * 1024 / b.rate⌉₊ : Rat) < (1 - b'.tokens) * 1024 / b.rate + 1 := Nat.ceil_lt_add_one hpos
    _ = ((1 - b'.tokens) * 1024 + b.rate) / b.rate := by field_simp
    _ ≤ (1 - b.tokens) * 1024 / b.rate := by gcongr; linarith

/-- The bucket has been counted at a millisecond, as the program counts it. -/
def IsCounted (b : Bucket) : Prop := Duration.perMilli ∣ b.lastRefill.nanos ∧ nearest b.tokens = b.tokens

instance (b : Bucket) : Decidable b.IsCounted := inferInstanceAs (Decidable (_ ∧ _))

/-- How many tries in vain there can be at milliseconds one after the other: as many as there are parts missing, and
once more all of them before it has been counted. -/
def dearth (b : Bucket) : Nat := (if b.IsCounted then 0 else b.vainTries + 1) + b.lack

theorem Brisk.request (h : b.Brisk) (now : Duration) :
    (b.request nearest now).1.Brisk ∧ (b.request nearest now).2 ≠ .unrepresentable := by
  obtain ⟨hfills, hrepresentable⟩ := h.fills.request now
  exact ⟨⟨hfills, (rate_request b nearest now).symm ▸ h.brisk⟩, hrepresentable⟩

/-- What a request at a millisecond leaves has been counted. -/
theorem Brisk.isCounted_request (h : b.Brisk) (hwhole : Duration.perMilli ∣ now.nanos) :
    (b.request nearest now).1.IsCounted ∧ (b.request nearest now).1.lastRefill = now := by
  obtain ⟨-, heq⟩ | ⟨-, d, heq⟩ := h.fills.request_cases now <;> rw [heq]
  · exact ⟨⟨hwhole, nearest_nearest _⟩, rfl⟩
  · exact ⟨⟨hwhole, h.fills.onGrid.nearest_count now⟩, rfl⟩

theorem Brisk.dearth_request (h : b.Brisk) (hwhole : Duration.perMilli ∣ now.nanos) :
    (b.request nearest now).1.dearth = (b.request nearest now).1.lack := by
  unfold dearth
  rw [if_pos (h.isCounted_request hwhole).1, Nat.zero_add]

/-- When a token was given, there may be as many tries in vain as ever. -/
theorem Brisk.dearth_request_le (h : b.Brisk) (hwhole : Duration.perMilli ∣ now.nanos) :
    (b.request nearest now).1.dearth ≤ b.vainTries := by
  rw [h.dearth_request hwhole, ← vainTries_congr (rate_request b nearest now)]
  exact (h.request now).1.lack_le

/-- A bucket that has been counted up to a later moment counts the same as then, if that is no token. -/
theorem Brisk.count_of_past (h : b.Brisk) (hcounted : b.IsCounted) (hpast : now.nanos ≤ b.lastRefill.nanos)
    (hnone : b.count now < 1) : b.count now = b.tokens := by
  have hcapacity : 1 ≤ b.capacity := h.fills.onGrid.capacity_eq.symm ▸ one_le_capacityOf b.rate
  rw [count_of_le hpast hcounted.2] at hnone ⊢
  rcases min_lt_iff.mp hnone with hlt | hlt
  · exact min_eq_left (hlt.le.trans hcapacity)
  · exact absurd hcapacity hlt.not_ge

/-- Milliseconds that are not the same are a millisecond apart. -/
theorem add_perMilli_le_of_lt {since now : Duration} (hsince : Duration.perMilli ∣ since.nanos)
    (hnow : Duration.perMilli ∣ now.nanos) (hlater : since.nanos < now.nanos) :
    since.nanos + Duration.perMilli ≤ now.nanos := by
  obtain ⟨m, hm⟩ := hsince
  obtain ⟨n, hn⟩ := hnow
  simp only [Duration.perMilli] at hm hn ⊢
  omega

/-- After a try in vain there are fewer left, unless no time had gone by since the bucket was counted. -/
theorem Brisk.dearth_lt_of_wait (h : b.Brisk) (hwhole : Duration.perMilli ∣ now.nanos) {d : Duration}
    (hwait : (b.request nearest now).2 = .wait d) :
    (b.request nearest now).1.dearth < b.dearth ∨
      now.nanos ≤ b.lastRefill.nanos ∧ (b.request nearest now).1.dearth = b.dearth := by
  have hle := h.dearth_request_le hwhole
  have heq := h.dearth_request hwhole
  by_cases hcounted : b.IsCounted
  · obtain ⟨-, hrequest⟩ | ⟨hnone, d', hrequest⟩ := h.fills.request_cases now
    · rw [hrequest] at hwait
      cases hwait
    · have hdearth : b.dearth = b.lack := by simp [dearth, hcounted]
      rw [heq, hdearth, hrequest]
      by_cases hlater : b.lastRefill.nanos < now.nanos
      · have hstep := add_perMilli_le_of_lt hcounted.1 hwhole hlater
        exact .inl (lack_lt h.rate_pos rfl (h.count_rises hstep hnone) hnone)
      · have hpast : now.nanos ≤ b.lastRefill.nanos := Nat.not_lt.mp hlater
        refine .inr ⟨hpast, ?_⟩
        simp only [lack, h.count_of_past hcounted hpast hnone]
  · have hdearth : b.dearth = b.vainTries + 1 + b.lack := by simp [dearth, hcounted]
    exact .inl (by omega)

end Reaper.Bucket
