import Reaper.Evaluation
import Reaper.Proofs.Binary64.Values
import Reaper.Proofs.Pass.Schedule

/-!
The rate of a limiter.

A limiter is brought to a rate that is a whole number, and is at exactly that rate until it is brought to another one:
whole numbers are on the grid of binary64 numbers, two of them never differ by too little, and a pass takes tokens but
leaves the rate alone (`rate_of_evaluate`).

  §1 Rates  — what changes the rate of a bucket.
  §2 Passes — a pass does not.
-/

namespace Reaper

/-! ## §1 Rates -/

namespace Bucket

/-- A whole number is a rate. -/
theorem rate?_ofInt {n : Nat} (h0 : 0 < n) (hn : n < 2 ^ 53) : rate? (.ofInt n) = .ok (n : Rat) := by
  rw [Binary64.ofInt_natCast h0 hn.le]
  exact if_pos (Nat.cast_pos.mpr h0)

/-- Whole numbers that are not the same differ by more than the resolution of rates. -/
theorem rateResolution_lt_abs {d : Int} (hd : d ≠ 0) : rateResolution < (d : Rat).abs := by
  have hone : (1 : Rat) ≤ (d : Rat).abs := by
    unfold Rat.abs
    split
    · rename_i hnonneg
      have : 0 ≤ d := Int.cast_nonneg_iff.mp hnonneg
      exact_mod_cast (by omega : 1 ≤ d)
    · rename_i hneg
      have : d < 0 := Int.cast_lt_zero.mp (not_le.mp hneg)
      exact_mod_cast (by omega : 1 ≤ -d)
  have hsmall : rateResolution < 1 := by decide +kernel
  exact hsmall.trans_le hone

/-- A bucket that is at a whole rate is brought to any other. -/
theorem rate_setRate {b : Bucket} {m n : Nat} (hb : b.rate = m) (hm : m < 2 ^ 53) (hn : n < 2 ^ 53) (now : Duration) :
    (b.setRate Rounding.nearest now n).rate = n := by
  unfold setRate
  split
  · rename_i hclose
    have hdiff : (m : Rat) - n = ((m - n : Int) : Rat) := by push_cast; rfl
    rw [hb, hdiff, Rounding.nearest_intCast (by omega)] at hclose
    have hsame : (m - n : Int) = 0 := by
      by_contra hne
      exact (rateResolution_lt_abs hne).not_gt hclose
    rw [hb]
    exact_mod_cast (by omega : m = n)
  · rfl

/-- Asking for a token leaves the rate alone. -/
theorem rate_request (b : Bucket) (round : Rounding) (now : Duration) : (b.request round now).1.rate = b.rate := by
  have htake : (b.take round now).1.rate = b.rate := by
    unfold take
    dsimp only
    split <;> rfl
  unfold request
  split
  · rename_i h
    rwa [h] at htake
  · rename_i h
    rw [h] at htake
    split <;> exact htake

end Bucket

/-! ## §2 Passes -/

namespace Pass

variable {plan : PassPlan} (p : Pass)

theorem bucket_seekSlot (i n : Nat) : (p.seekSlot i n).bucket = p.bucket := by
  unfold seekSlot
  split <;> rfl

theorem bucket_releaseSlot : p.releaseSlot.bucket = p.bucket := by
  unfold releaseSlot
  split <;> rfl

theorem bucket_attempt (i n : Nat) : (p.attempt plan i n).bucket = p.bucket := by
  unfold attempt
  split
  · exact bucket_seekSlot ..
  · rfl
  · rfl

theorem rate_seekToken (i : Nat) : (p.seekToken plan i).bucket.rate = p.bucket.rate := by
  have hrequest := Bucket.rate_request p.bucket plan.round p.now
  unfold seekToken
  split
  · rfl
  · split <;> rename_i h <;> rw [h] at hrequest
    · rw [bucket_attempt]
      exact hrequest
    · exact hrequest
    · exact hrequest

theorem rate_resume (i : Nat) : (p.resume plan i).bucket.rate = p.bucket.rate := by
  unfold resume
  split
  · split
    · rfl
    · split
      · rfl
      · exact rate_seekToken p i
  · split
    · rfl
    · split
      · exact rate_seekToken p i
      · rfl
  · rfl
  · split
    · rfl
    · split
      · rw [bucket_attempt]
      · rfl
  · rfl

theorem rate_step (ev : PassEvent) : (p.step plan ev).bucket.rate = p.bucket.rate := by
  cases ev with
  | advance d => rfl
  | cancel => rfl
  | resume i => exact rate_resume p i
  | reply i r =>
    have hrelease : p.releaseSlot.bucket.rate = p.bucket.rate := by rw [bucket_releaseSlot]
    show (p.reply plan i r).bucket.rate = p.bucket.rate
    unfold reply
    split
    · dsimp only
      split
      · exact hrelease
      · split
        · exact hrelease
        · exact (rate_resume _ i).trans hrelease
      · exact hrelease
    · rfl

/-- Whatever happens in a pass, the limiter stays at its rate. -/
theorem rate_run (events : List PassEvent) : (p.run plan events).bucket.rate = p.bucket.rate := by
  induction events generalizing p with
  | nil => rfl
  | cons ev events ih => exact (ih (p.step plan ev)).trans (rate_step p ev)

end Pass

/-- An evaluation leaves its limiter at the rate at which it found it. -/
theorem Evaluator.rate_of_evaluate {σ : Type} {e : Evaluator} {backend : DeleteBackend σ} {p : Policy}
    {target : WatchTarget} {now : Instant} {snapshot : List Resource} {bucket : Bucket} {clock : Millis}
    {cancelAt : Option Millis} {world : σ} {v : Evaluation σ}
    (h : e.evaluate backend p target now snapshot bucket clock cancelAt world = some v) :
    v.bucket.rate = bucket.rate := by
  unfold evaluate at h
  split at h
  · cases h
    rfl
  · obtain ⟨s, hrun, rfl⟩ := Option.map_eq_some_iff.mp h
    obtain ⟨events, hevents⟩ := (Schedule.reaches_of_runFor hrun).events
    show s.pass.bucket.rate = bucket.rate
    rw [hevents, Pass.rate_run]
    rfl

end Reaper
