import Reaper.Proofs.Evaluation.LateCalls
import Reaper.Proofs.Pass.Bursts

/-!
The rate at which an evaluation begins to delete.

The rate of a bucket bounds its tokens, and a deletion gets its token before it waits for a slot. So the first calls of a
pass keep the rate in every window exactly when the deletions beyond the slots are no more than a full bucket holds
(`first_calls_keep_rate_iff`). Whatever their number, what exceeds the rate was pledged before.
-/

namespace Reaper

namespace Evaluator

/-- The plan of an evaluation whose bucket counts in exact arithmetic. -/
def exactPlanFor (e : Evaluator) (p : Policy) (target : WatchTarget) (now : Instant) (snapshot : List Resource) :
    PassPlan :=
  { e.planFor p target now snapshot with round := Rounding.exact }

/-- An evaluation runs its pass by events. Over all events that can come, its first calls keep the rate in every window
exactly when it is a dry run, or no more resources have expired than there are slots and tokens in a full bucket.
Whatever their number, from any point of a run on there are at most as many first calls as deletions that had their token
then, and those that a full bucket and the rate allow. -/
theorem first_calls_keep_rate_iff (e : Evaluator) (p : Policy) (target : WatchTarget) (now : Instant)
    (snapshot : List Resource) {bucket : Bucket} (hb : bucket.Valid) (clock : Millis) :
    let plan := e.exactPlanFor p target now snapshot
    let begun := Pass.start plan bucket clock.moment
    let burst := max bucket.rate 1
    (∀ (σ : Type) (backend : DeleteBackend σ) (cancelAt : Option Millis) (world : σ) (s : Schedule σ),
      Schedule.Reaches plan backend (.start plan bucket clock cancelAt world) s →
        ∃ events, s.pass = begun.run plan events) ∧
    ((∀ events opens closes,
        (begun.run plan events).firstsWithin opens closes ≤ bucket.rate * opens.secondsTo closes + burst) ↔
      (p.spec.behavior.dryRun || e.dryRun) = true ∨
        ((Survey.of p.spec target.namespace now snapshot).expired.length : Rat) ≤
          e.batchSize p.spec.behavior + burst) ∧
    ∀ before after,
      let opened := begun.run plan before
      let closed := opened.run plan after
      (closed.firsts.length : Rat) ≤
        opened.firsts.length + opened.pledged + bucket.rate * opened.now.secondsTo closed.now + burst := by
  intro plan begun burst
  have hsize : plan.deletions.size = (Survey.of p.spec target.namespace now snapshot).expired.length := by
    simp [plan, exactPlanFor, planFor, Evaluator.plan]
  refine ⟨fun σ backend cancelAt world s h => h.events, ⟨?_, ?_⟩, fun before after => ?_⟩
  · intro hkeeps
    cases hdry : plan.dryRun with
    | true => exact .inl hdry
    | false =>
      refine .inr ?_
      obtain ⟨events, moment, hburst⟩ :=
        Pass.exists_burst rfl hb hdry (e.batchSize_pos p.spec.behavior) clock.moment
      have hrate := hkeeps events moment moment
      rw [Duration.secondsTo_self, mul_zero, zero_add] at hrate
      have hcast : (plan.deletions.size : Rat) ≤
          plan.slots + ((begun.run plan events).firstsWithin moment moment : Nat) := by
        exact_mod_cast hburst
      rw [← hsize]
      show (plan.deletions.size : Rat) ≤ plan.slots + burst
      linarith
  · intro hcase events opens closes
    have hbooks : Pass.Books plan bucket.rate (begun.run plan events) := Pass.books_run rfl hb clock.moment events
    rcases hcase with hdry | hfew
    · have hcalls : (begun.run plan events).calls = [] := Pass.calls_of_dryRun hdry bucket clock.moment events
      have hnone : (begun.run plan events).firstsWithin opens closes = 0 := by
        simp [Pass.firstsWithin, Pass.firsts, hcalls, Pass.firstsOf]
      have hgain := mul_nonneg hbooks.rate_nonneg (Duration.secondsTo_nonneg opens closes)
      have hcap : 0 ≤ burst := zero_le_one.trans (le_max_right ..)
      rw [hnone]
      push_cast
      linarith
    · rw [← hsize] at hfew
      exact (Pass.paced_run rfl hb clock.moment events opens closes).firstsWithin_le hbooks hfew
  · exact (Pass.books_run rfl hb clock.moment before).length_firsts_run_le rfl after

def threePods : List Resource :=
  ["web-0", "web-1", "web-2"].map fun name =>
    { metadata := { name := some name, «namespace» := some "prod", creationTimestamp := some ⟨0, 0⟩ } }

/-- Pauses last three tenths of a second. -/
def steadyRetries : Evaluator :=
  { retry := { initial := Duration.ofMillis 300, factor := .finite 1, jitter := .finite 0 }
    defaultBatchSize := 10, dryRun := false, word := fun _ _ => 0 }

/-- Three pods, one at a time, at a deletion a second: some client breaks the rate. -/
theorem exists_window_over_rate_threePods :
    (Bucket.full 1 ⟨0⟩).Valid ∧
      let plan := steadyRetries.exactPlanFor oneByOne podsOfProd ⟨7200, 0⟩ threePods
      ∃ events opens closes, 1 * opens.secondsTo closes + max 1 1 <
        (((Pass.start plan (Bucket.full 1 ⟨0⟩) (Millis.moment 0)).run plan events).firstsWithin opens closes : Rat) := by
  have hvalid : (Bucket.full 1 ⟨0⟩).Valid := .full one_pos ⟨0⟩
  refine ⟨hvalid, ?_⟩
  obtain ⟨-, hiff, -⟩ := first_calls_keep_rate_iff steadyRetries oneByOne podsOfProd ⟨7200, 0⟩ threePods hvalid 0
  have hmany : ¬ ((oneByOne.spec.behavior.dryRun || steadyRetries.dryRun) = true ∨
      ((Survey.of oneByOne.spec podsOfProd.namespace ⟨7200, 0⟩ threePods).expired.length : Rat) ≤
        steadyRetries.batchSize oneByOne.spec.behavior + max 1 1) := by
    decide +kernel
  have hbroken := hiff.not.mpr hmany
  push Not at hbroken
  exact hbroken

/-- The first call of a pass is turned away because there are too many. Every call takes six tenths of a second. -/
def busyAtFirst : DeleteBackend Nat where
  answer made _ _ :=
    ((if made = 0 then .error (.api "Failure" "busy" "TooManyRequests" 429) else .ok (), some (Duration.ofMillis 600)),
      made + 1)
  failed made _ _ := made

/-- While the first pod is tried again, the two others take their tokens. Then they are called six tenths of a second
apart, which at a deletion a second a full bucket does not allow. -/
theorem first_calls_exceed_rate_busyAtFirst :
    ((Schedule.run (steadyRetries.exactPlanFor oneByOne podsOfProd ⟨7200, 0⟩ threePods) busyAtFirst
        (Bucket.full 1 ⟨0⟩) 0 none 0).map fun s => s.pass.firstsWithin (.ofMillis 1500) (.ofMillis 2100)) = some 2 ∧
      1 * (Duration.ofMillis 1500).secondsTo (.ofMillis 2100) + max 1 1 < (2 : Rat) := by
  decide +kernel

end Evaluator

end Reaper
