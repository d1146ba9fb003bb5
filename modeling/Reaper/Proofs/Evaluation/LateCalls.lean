import Reaper.Proofs.Evaluation.Calls
import Reaper.Proofs.Pass.Cancellation

/-!
Calls that an evaluation makes after its cancellation.

The pass of an evaluation is one run of the pass that its survey plans, and it has a slot to give (`batchSize_pos`). So
the general theorems about cancelled passes hold of it: what is called late is exactly what was seeking a slot when the
token fired (`late_calls_iff_seekers`). With one slot and two slow deletions that happens (`late_call_slowDeletions`).
-/

namespace Reaper

namespace Evaluator

/-- At least one call of a pass may be under way. -/
theorem batchSize_pos (e : Evaluator) (b : Behavior) : 0 < e.batchSize b := by
  unfold batchSize
  split
  · split
    · omega
    · exact Nat.lt_of_lt_of_le Nat.one_pos (Nat.le_max_right ..)
  · exact Nat.lt_of_lt_of_le Nat.one_pos (Nat.le_max_right ..)

/-- A moment that is not past a millisecond is reached by it. -/
theorem reaching_le {d : Duration} {t : Millis} (h : d.nanos ≤ t.moment.nanos) : Millis.reaching d ≤ t := by
  have h' : d.nanos ≤ t * 1000000 := h
  show (d.nanos + (1000000 - 1)) / 1000000 ≤ t
  omega

/-- An evaluation that makes a call after its cancellation had a deletion that sought a slot when the token fired. -/
theorem seeks_of_late_call {σ : Type} {e : Evaluator} {backend : DeleteBackend σ} {p : Policy} {target : WatchTarget}
    {now : Instant} {snapshot : List Resource} {bucket : Bucket} {clock : Millis} {cancelAt : Option Millis} {world : σ}
    {v : Evaluation σ} (h : e.evaluate backend p target now snapshot bucket clock cancelAt world = some v) :
    let plan := e.planFor p target now snapshot
    let begun := Pass.start plan bucket clock.moment
    ∃ events,
      (v.calls = (begun.run plan events).calls.reverse.map fun call =>
        (Millis.reaching call.1, (plan.deletions[call.2]?.getD default).call)) ∧
      ∀ c, cancelAt = some c → (∃ call ∈ v.calls, c < call.1) →
        ∃ before after, events = before ++ .cancel :: after ∧ (begun.run plan before).now = c.moment ∧
          ∃ i, (begun.run plan before).seeks i = true := by
  intro plan begun
  obtain ⟨-, hcalls, -⟩ | ⟨hlater, s, hrun, -, hcalls⟩ := evaluate_cases h
  · exact ⟨[], hcalls, fun c _ ⟨call, hcall, _⟩ => by simp [hcalls] at hcall⟩
  -- what was called by the time of the cancellation is not late
  have hnotLate {p : Pass} {c : Millis} (hp : s.pass.calls = p.calls) (hpast : p.CallsPast)
      (hnow : p.now.nanos ≤ c.moment.nanos) : ¬ ∃ call ∈ v.calls, c < call.1 := by
    rintro ⟨call, hcall, hlate⟩
    rw [hcalls, hp] at hcall
    obtain ⟨began, hbegan, rfl⟩ := List.mem_map.mp hcall
    have hbegun := hpast began (List.mem_reverse.mp hbegan)
    exact absurd hlate (Nat.not_lt.mpr (reaching_le (Nat.le_trans hbegun hnow)))
  obtain ⟨-, honTime⟩ := Schedule.onTime_of_reaches hlater (Schedule.reaches_of_runFor hrun)
  generalize hpass : s.pass = pass at honTime
  cases honTime with
  | unfired events _ hnow =>
    refine ⟨events, hpass ▸ hcalls, fun c hc hlate => ?_⟩
    have hpast := Pass.callsPast_run plan bucket clock.moment events
    exact absurd hlate (hnotLate (congrArg Pass.calls hpass) hpast (Nat.le_of_lt (hnow c hc)))
  | fired c before after hc hat =>
    refine ⟨before ++ .cancel :: after, hpass ▸ hcalls, fun c' hc' hlate => ?_⟩
    obtain rfl : c = c' := Option.some.inj (hc.symm.trans hc')
    refine ⟨before, after, rfl, hat, ?_⟩
    refine Classical.byContradiction fun hnobody => ?_
    have hnone : ∀ i, (begun.run plan before).seeks i = false := fun i =>
      Bool.eq_false_iff.mpr fun hi => hnobody ⟨i, hi⟩
    have hsame : s.pass.calls = (begun.run plan before).calls := by
      rw [hpass, Pass.run_append]
      exact Pass.calls_after_cancel_eq plan hnone after
    have hpast := Pass.callsPast_run plan bucket clock.moment before
    exact hnotLate hsame hpast (Nat.le_of_eq (congrArg Duration.nanos hat)) hlate

/-- An evaluation runs its pass by events, and can make a late call only when a deletion is waiting for a slot at the
instant the token fires, or has been handed one without having begun its call. At whatever point of a run the token
fires, and whatever comes then, that is exactly when a call can be begun at a later moment. Those deletions make at most
one more call, and the others none. -/
theorem late_calls_iff_seekers (e : Evaluator) (p : Policy) (target : WatchTarget) (now : Instant)
    (snapshot : List Resource) (bucket : Bucket) (clock : Millis) :
    let plan := e.planFor p target now snapshot
    let begun := Pass.start plan bucket clock.moment
    (∀ (σ : Type) (backend : DeleteBackend σ) (cancelAt : Option Millis) (world : σ) (v : Evaluation σ),
      e.evaluate backend p target now snapshot bucket clock cancelAt world = some v →
        ∃ events,
          (v.calls = (begun.run plan events).calls.reverse.map fun call =>
            (Millis.reaching call.1, (plan.deletions[call.2]?.getD default).call)) ∧
          ∀ c, cancelAt = some c → (∃ call ∈ v.calls, c < call.1) →
            ∃ before after, events = before ++ .cancel :: after ∧ (begun.run plan before).now = c.moment ∧
              ∃ i, (begun.run plan before).seeks i = true) ∧
    ∀ before,
      let fired := begun.run plan before
      ((∀ after, ∀ call ∈ ((fired.step plan .cancel).run plan after).calls, call.1.nanos ≤ fired.now.nanos) ↔
        ∀ i, fired.seeks i = false) ∧
      ∀ after i, ((fired.step plan .cancel).run plan after).callsOf i ≤ fired.callsOf i + (fired.seeks i).toNat := by
  intro plan begun
  refine ⟨fun σ backend cancelAt world v h => seeks_of_late_call h, fun before => ⟨⟨?_, ?_⟩, ?_⟩⟩
  · intro h i
    cases hi : (begun.run plan before).seeks i
    · rfl
    · have hslots : Pass.SlotsAgree plan.slots (begun.run plan before) := Pass.slotsAgree_run plan bucket _ before
      obtain ⟨after, call, hcall, hlate⟩ := Pass.exists_late_call plan hslots (e.batchSize_pos _) hi
      exact absurd (h after call hcall) (Nat.not_le.mpr hlate)
  · intro h after
    rw [Pass.calls_after_cancel_eq plan h after]
    exact Pass.callsPast_run plan bucket clock.moment before
  · exact fun after i => Pass.calls_after_cancel_le plan _ after i

/-- A policy that deletes pods of a namespace an hour after their creation, one at a time. -/
def oneByOne : Policy :=
  { metadata := { name := some "hourly", «namespace» := some "prod" }
    spec :=
      { targetResource := { apiVersion := "v1", kind := "Pod" }
        ttl := { secondsAfterCreation := some 3600 }
        behavior := { batchSize := some 1 } } }

def podsOfProd : WatchTarget :=
  { group := "", version := "v1", kind := "Pod", plural := "pods", «namespace» := some "prod"
    labelSelector := "", fieldSelector := "" }

def oldPods : List Resource :=
  ["web-0", "web-1"].map fun name =>
    { metadata := { name := some name, «namespace» := some "prod", creationTimestamp := some ⟨0, 0⟩ } }

/-- Every deletion succeeds after a tenth of a second. -/
def slowDeletions : DeleteBackend Unit where
  answer _ _ _ := ((.ok (), some (Duration.ofMillis 100)), ())
  failed _ _ _ := ()

/-- The token fires in the middle of the first deletion; the second one is called all the same when the first is
over. -/
theorem late_call_slowDeletions :
    (({ retry := {}, defaultBatchSize := 10, dryRun := false, word := fun _ _ => 0 } : Evaluator).evaluate slowDeletions
      oneByOne podsOfProd ⟨7200, 0⟩ oldPods (Bucket.full 10 ⟨0⟩) 0 (some 50) ()).map (·.calls.map (·.1)) =
      some [0, 100] := by
  decide +kernel

end Evaluator

end Reaper
