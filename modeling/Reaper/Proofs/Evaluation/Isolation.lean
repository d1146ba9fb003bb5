import Reaper.Proofs.Evaluation.Ends
import Reaper.Proofs.Pass.Endings
import Reaper.Proofs.Pass.Turns

/-!
Deletions do not meddle with each other.

All deletions of a pass share a bucket, the slots and the settling of what has ended. None of this has a part in how a
deletion ends: it ends as it would alone, with its own replies (`deletions_are_isolated`). The rate has a part only in
when it ends.

  §1 Counters — what a tally makes of the deletions that have ended.
  §2 Trials   — passes over a snapshot in which every resource has its own replies.
  §3 Endings  — how the deletions of a trial end.
-/

namespace Reaper

/-! ## §1 Counters -/

def Disposition.isFailed : Disposition → Bool
  | failed _ => true
  | _ => false

/-- The counters after some more deletions have ended. -/
theorem PassResult.foldl_settle (dispositions : List Disposition) (r : PassResult) :
    dispositions.foldl settle r =
      { r with
        deleted := r.deleted + dispositions.countP (· = .deleted)
        failed := r.failed + dispositions.countP Disposition.isFailed
        dryRun := r.dryRun + dispositions.countP (· = .dryRun)
        firstError := r.firstError.or (dispositions.findSome? Disposition.message?)
        cancelled := r.cancelled || dispositions.any (· = .cancelled) } := by
  induction dispositions generalizing r with
  | nil => simp
  | cons d rest ih =>
    rw [List.foldl_cons, ih]
    cases d <;>
      simp [settle, Disposition.isFailed, Disposition.message?, List.countP_cons, List.findSome?_cons, Nat.add_assoc,
        Nat.add_comm 1]

/-- The counters of a survey, and of the deletions that have ended. -/
theorem PassResult.tally_eq (s : Survey) (dispositions : List Disposition) :
    tally s dispositions =
      { matched := s.matched
        expired := s.expired.length
        deleted := dispositions.countP (· = .deleted)
        pending := s.pending
        failed := dispositions.countP Disposition.isFailed
        dryRun := dispositions.countP (· = .dryRun)
        skipped := s.exempt
        firstError := dispositions.findSome? Disposition.message?
        cancelled := dispositions.any (· = .cancelled) } := by
  unfold tally
  rw [foldl_settle]
  simp [ofSurvey]

/-- How a deletion of a resource has ended if its calls have ended so. -/
def Resource.dispose (r : Resource) (o : DeleteOutcome) : Disposition := Deletion.dispose ⟨r.label, default⟩ o

theorem Deletion.dispose_ofResource (b : Behavior) (r : Resource) (o : DeleteOutcome) :
    (Deletion.ofResource b r).dispose o = r.dispose o := by
  cases o <;> rfl

/-- What was decided by the replies has succeeded or failed. -/
theorem Retry.Decides.dispose {limit : Nat} {replies : Nat → Reply} {o : DeleteOutcome} (h : Decides limit replies o)
    (r : Resource) :
    (r.dispose o = .deleted ↔ o.succeeded = true) ∧ (r.dispose o).isFailed = !o.succeeded ∧ r.dispose o ≠ .cancelled := by
  obtain ⟨n, -, ho⟩ := h
  have hnever := RetryState.ne_cancelled_of_answered ho
  cases o with
  | cancelled k => exact absurd rfl (hnever k)
  | _ => simp [Resource.dispose, Deletion.dispose, DeleteOutcome.succeeded, Disposition.isFailed]

/-! ## §2 Trials -/

/-- A pass over a snapshot, with all that has a bearing on it. -/
structure Trial (σ : Type) where
  evaluator : Evaluator
  backend : DeleteBackend σ
  policy : Policy
  target : WatchTarget
  now : Instant
  snapshot : List Resource
  bucket : Bucket
  clock : Millis
  cancelAt : Option Millis
  world : σ

namespace Trial

variable {σ : Type}

/-- The resources that are to be deleted. -/
def expired (t : Trial σ) : List Resource := (Survey.of t.policy.spec t.target.namespace t.now t.snapshot).expired

def plan (t : Trial σ) : PassPlan := t.evaluator.planFor t.policy t.target t.now t.snapshot

def start (t : Trial σ) : Schedule σ := .start t.plan t.bucket t.clock t.cancelAt t.world

def evaluation? (t : Trial σ) : Option (Evaluation σ) :=
  t.evaluator.evaluate t.backend t.policy t.target t.now t.snapshot t.bucket t.clock t.cancelAt t.world

/-- The resources that have been dealt with, each with how that ended, in the order in which it did. -/
def endings (t : Trial σ) (s : Schedule σ) : List (Resource × Disposition) :=
  s.pass.settlements.reverse.map fun settlement => (t.expired[settlement.1]?.getD default, settlement.2)

/-- Nobody has ordered a dry run, and the calls for each resource are answered by replies of its own, one after the
other. -/
structure IsScripted (t : Trial σ) (replies : Resource → Nat → Reply) : Prop where
  inEarnest : (t.policy.spec.behavior.dryRun || t.evaluator.dryRun) = false
  answers : ∃ answered, t.backend.Answers t.plan (fun i => replies (t.expired[i]?.getD default)) answered ∧
    ∀ i < t.expired.length, answered t.world i = 0

/-- A deletion of the trial comes to a pause that has no duration. -/
def Strands (t : Trial σ) : Prop :=
  t.evaluator.Strands t.backend t.policy t.target t.now t.snapshot t.bucket t.clock t.cancelAt t.world

/-- The trial has come to its end and was not cancelled before. -/
structure Ends (t : Trial σ) (s : Schedule σ) (v : Evaluation σ) : Prop where
  begun : Retry.cancelledBy t.cancelAt t.clock = false
  run : Schedule.run t.plan t.backend t.bucket t.clock t.cancelAt t.world = some s
  uncancelled : s.pass.cancelled = false
  evaluation : t.evaluation? = some v

variable {t : Trial σ} {replies : Resource → Nat → Reply} {s : Schedule σ} {v : Evaluation σ}

theorem size_plan (t : Trial σ) : t.plan.deletions.size = t.expired.length := by
  simp [plan, Evaluator.planFor, Evaluator.plan, expired]

theorem getElem?_plan (t : Trial σ) (i : Nat) :
    t.plan.deletions[i]? = t.expired[i]?.map (Deletion.ofResource t.policy.spec.behavior) := by
  simp [plan, Evaluator.planFor, Evaluator.plan, expired]

/-- The result of a trial that has come to its end is the tally of its settlements. -/
theorem result_of_run (hbegun : Retry.cancelledBy t.cancelAt t.clock = false)
    (hrun : Schedule.run t.plan t.backend t.bucket t.clock t.cancelAt t.world = some s)
    (hevaluation : t.evaluation? = some v) :
    v.result = .tally (Survey.of t.policy.spec t.target.namespace t.now t.snapshot)
      (s.pass.settlements.reverse.map (·.2)) ∧ v.world = s.world := by
  unfold evaluation? Evaluator.evaluate at hevaluation
  rw [hbegun] at hevaluation
  obtain ⟨s', hrun', rfl⟩ := Option.map_eq_some_iff.mp hevaluation
  cases hrun.symm.trans hrun'
  exact ⟨rfl, rfl⟩

/-- The result of a trial counts its endings. -/
theorem Ends.result (h : t.Ends s v) :
    v.result.deleted = (t.endings s).countP (·.2 = .deleted) ∧
      v.result.failed = (t.endings s).countP (·.2.isFailed) ∧
      v.result.cancelled = (t.endings s).any (·.2 = .cancelled) := by
  obtain ⟨hresult, -⟩ := result_of_run h.begun h.run h.evaluation
  rw [hresult, PassResult.tally_eq]
  simp [endings, List.countP_map, List.any_map, Function.comp_def]

/-! ## §3 Endings -/

/-- In a trial that has not been cancelled everything is given its own replies. -/
theorem IsScripted.inStep (h : t.IsScripted replies) (hreach : Schedule.Reaches t.plan t.backend t.start s)
    (hcancelled : s.pass.cancelled = false) :
    ∃ answered, Schedule.InStep t.plan (fun i => replies (t.expired[i]?.getD default)) answered s := by
  obtain ⟨answered, hanswers, hnone⟩ := h.answers
  rw [← t.size_plan] at hnone
  have hstart : Schedule.InStep t.plan (fun i => replies (t.expired[i]?.getD default)) answered t.start :=
    Schedule.inStep_start t.bucket t.clock t.cancelAt hnone
  exact ⟨answered, Schedule.inStep_of_reaches hanswers h.inEarnest hstart hreach hcancelled⟩

variable {alone : Resource → DeleteOutcome}

/-- How a deletion of a trial has ended, if it has: as it is decided by the replies. -/
theorem IsScripted.settled (h : t.IsScripted replies)
    (halone : ∀ r, Retry.Decides t.evaluator.retry.limit (replies r) (alone r))
    (hreach : Schedule.Reaches t.plan t.backend t.start s) (hcancelled : s.pass.cancelled = false) {i : Nat}
    {d : Disposition} (hs : s.pass.stages[i]? = some (.settled d)) :
    ∃ r, t.expired[i]? = some r ∧ d = r.dispose (alone r) := by
  obtain ⟨answered, hstep⟩ := h.inStep hreach hcancelled
  obtain ⟨o, ho, rfl⟩ := hstep.follows hcancelled i _ hs
  have hi : i < t.expired.length := by
    rw [← t.size_plan, ← hstep.size]
    exact (Array.getElem?_eq_some_iff.mp hs).1
  have hown : Retry.Decides t.plan.limit (replies t.expired[i]) o := by
    simpa [List.getElem?_eq_getElem hi] using ho
  refine ⟨t.expired[i], List.getElem?_eq_getElem hi, ?_⟩
  rw [hown.unique (halone t.expired[i])]
  rw [Pass.disposition, getElem?_plan, List.getElem?_eq_getElem hi]
  exact Deletion.dispose_ofResource ..

/-- Pod `web-0` must not be deleted. -/
def protectedReply (name : String) : Reply :=
  if name = "web-0" then .error (.api "Failure" "protected" "Forbidden" 403) else .ok ()

/-- Two old pods, one after the other. The backend notes down the calls that it has answered. -/
def twoPods : Trial (List DeleteCall) :=
  { evaluator := { retry := {}, defaultBatchSize := 10, dryRun := false, word := fun _ _ => 0 }
    backend :=
      { answer := fun calls _ call => ((protectedReply call.name, some (Duration.ofMillis 100)), call :: calls)
        failed := fun calls _ _ => calls }
    policy := Evaluator.oneByOne
    target := Evaluator.podsOfProd
    now := ⟨7200, 0⟩
    snapshot := Evaluator.oldPods
    bucket := Bucket.full 10 ⟨0⟩
    clock := 0
    cancelAt := none
    world := [] }

end Trial

end Reaper
