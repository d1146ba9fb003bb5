import Reaper.Evaluation
import Reaper.Proofs.Pass.Schedule

/-!
The calls that an evaluation makes.

The pass of an evaluation is the one that its survey plans (`evaluate_cases`). Which calls it makes is told by a backend
that notes them down (`Makes`), also when the evaluation does not end. Every one of them deletes a resource of the
snapshot that the survey finds expired, in the manner of the policy, and none is made in a dry run
(`Makes.exists_expired`).
-/

namespace Reaper

/-- A policy finds a resource expired exactly when it covers the resource, nothing exempts the resource, and its time
has come. -/
theorem PolicySpec.verdict_eq_expired_iff {s : PolicySpec} {scope : Option String} {now : Instant} {r : Resource} :
    s.verdict scope now r = .expired ↔
      s.covers scope r r.document = true ∧ r.isPreserved = false ∧ r.isTerminating = false ∧
        ∃ instant, s.ttl.check r r.document now = .expired instant := by
  unfold verdict
  dsimp only
  cases s.covers scope r r.document with
  | false => simp
  | true =>
    cases r.isPreserved <;> cases r.isTerminating <;> cases s.ttl.check r r.document now <;> simp

namespace Evaluator

variable {σ : Type} {e : Evaluator} {backend : DeleteBackend σ} {p : Policy} {target : WatchTarget} {now : Instant}
  {snapshot : List Resource} {bucket : Bucket} {clock : Millis} {cancelAt : Option Millis} {world : σ}

/-- The plan of the pass over what a survey of the snapshot finds expired. -/
def planFor (e : Evaluator) (p : Policy) (target : WatchTarget) (now : Instant) (snapshot : List Resource) : PassPlan :=
  e.plan p.spec.behavior (Survey.of p.spec target.namespace now snapshot).expired

/-- An evaluation that ends was cancelled before it began, or has run the pass that its survey plans. -/
theorem evaluate_cases {v : Evaluation σ}
    (h : e.evaluate backend p target now snapshot bucket clock cancelAt world = some v) :
    (Retry.cancelledBy cancelAt clock = true ∧ v.calls = [] ∧ v.world = world) ∨
      Retry.cancelledBy cancelAt clock = false ∧ ∃ s,
        Schedule.run (e.planFor p target now snapshot) backend bucket clock cancelAt world = some s ∧
        v.world = s.world ∧
        v.calls = s.pass.calls.reverse.map fun call =>
          (Millis.reaching call.1, ((e.planFor p target now snapshot).deletions[call.2]?.getD default).call) := by
  unfold evaluate at h
  split at h
  · rename_i hc
    cases h
    exact .inl ⟨hc, rfl, rfl⟩
  · rename_i hc
    obtain ⟨s, hrun, rfl⟩ := Option.map_eq_some_iff.mp h
    exact .inr ⟨by simpa using hc, s, hrun, rfl, rfl⟩

variable (e backend p target now snapshot bucket clock cancelAt world)

/-- An evaluation comes to make a call, whether it ends or not. -/
def Makes (call : DeleteCall) : Prop :=
  Retry.cancelledBy cancelAt clock = false ∧
    ∃ s, Schedule.Reaches (e.planFor p target now snapshot) backend.noting
        (.start (e.planFor p target now snapshot) bucket clock cancelAt (world, [])) s ∧ call ∈ s.world.2

/-- Taking notes changes nothing else. -/
theorem evaluate_notes {τ : Type} {backend' : DeleteBackend (σ × τ)} (h : backend.Notes backend') (note : τ) :
    (e.evaluate backend' p target now snapshot bucket clock cancelAt (world, note)).map
        (fun v => { v with world := v.world.1 }) =
      e.evaluate backend p target now snapshot bucket clock cancelAt world := by
  unfold evaluate
  split
  · rfl
  · unfold Schedule.run
    dsimp only
    rw [show Schedule.start _ bucket clock cancelAt world =
      (Schedule.start _ bucket clock cancelAt (world, note)).forget from rfl,
      ← Schedule.forget_runFor h, Option.map_map, Option.map_map]
    rfl

variable {e backend p target now snapshot bucket clock cancelAt world}

/-- What is noted in an evaluation that ends was made. -/
theorem makes_of_evaluate {v : Evaluation (σ × List DeleteCall)} {call : DeleteCall}
    (h : e.evaluate backend.noting p target now snapshot bucket clock cancelAt (world, []) = some v)
    (hcall : call ∈ v.world.2) : e.Makes backend p target now snapshot bucket clock cancelAt world call := by
  obtain ⟨-, -, hworld⟩ | ⟨hc, s, hrun, hworld, -⟩ := evaluate_cases h
  · simp [hworld] at hcall
  · exact ⟨hc, s, Schedule.reaches_of_runFor hrun, hworld ▸ hcall⟩

/-- Every call of an evaluation deletes a resource that the policy finds expired, and is not made in a dry run. -/
theorem Makes.exists_expired {call : DeleteCall}
    (h : e.Makes backend p target now snapshot bucket clock cancelAt world call) :
    p.spec.behavior.dryRun = false ∧ e.dryRun = false ∧
      ∃ r ∈ snapshot, p.spec.verdict target.namespace now r = .expired ∧
        call = .ofResource p.spec.behavior r := by
  obtain ⟨-, s, hreach, hcall⟩ := h
  obtain ⟨hdry, d, hd, rfl⟩ := Schedule.plannedNotes_of_reaches hreach call hcall
  obtain ⟨hpolicy, heverywhere⟩ := Bool.or_eq_false_iff.mp (show (p.spec.behavior.dryRun || e.dryRun) = false from hdry)
  refine ⟨hpolicy, heverywhere, ?_⟩
  simp only [planFor, plan, List.mem_toArray, List.mem_map, Survey.of, List.mem_filter, decide_eq_true_eq] at hd
  obtain ⟨r, ⟨hr, hexpired⟩, rfl⟩ := hd
  exact ⟨r, hr, hexpired, rfl⟩

end Evaluator

end Reaper
