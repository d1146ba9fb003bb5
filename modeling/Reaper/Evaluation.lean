import Reaper.Notice
import Reaper.Pass.Schedule
import Reaper.Policy.Target
import Reaper.Survey

/-!
Evaluations: a survey of a snapshot, and the pass that deletes what has expired.

The counters of a result are those of the survey, plus one for each deletion that has ended. A pass that was cancelled
before it began counts nothing.
-/

namespace Reaper

/-- The counters of a pass. -/
structure PassResult where
  matched : Nat := 0
  expired : Nat := 0
  deleted : Nat := 0
  pending : Nat := 0
  failed : Nat := 0
  dryRun : Nat := 0
  skipped : Nat := 0
  firstError : Option String := none
  cancelled : Bool := false
  deriving DecidableEq, Repr, Inhabited

namespace PassResult

def ofSurvey (s : Survey) : PassResult :=
  { matched := s.matched, expired := s.expired.length, pending := s.pending, skipped := s.exempt }

/-- Counts a deletion that has ended. -/
def settle (r : PassResult) : Disposition → PassResult
  | .deleted => { r with deleted := r.deleted + 1 }
  | .dryRun => { r with dryRun := r.dryRun + 1 }
  | .failed message => { r with failed := r.failed + 1, firstError := r.firstError.or (some message) }
  | .cancelled => { r with cancelled := true }

/-- Counts the deletions of a survey in the order in which they ended. -/
def tally (s : Survey) (dispositions : List Disposition) : PassResult := dispositions.foldl settle (ofSurvey s)

end PassResult

/-- A backend that deletes in some way and reports failures as notices about a policy, if the policy has an identity. -/
def DeleteBackend.reporting {σ : Type} (delete : σ → Millis → DeleteCall → (Reply × Option Duration) × σ)
    (notify : PolicyRef → Notice → σ → σ) (p : Policy) : DeleteBackend σ :=
  { answer := delete
    failed := fun world d message =>
      match PolicyRef.ofPolicy p with
      | .ok ref => notify ref (.deletionFailed d.label message) world
      | .error _ => world }

/-- How passes are run. -/
structure Evaluator where
  retry : RetryPolicy
  defaultBatchSize : Nat
  /-- nothing is deleted, whatever policies say -/
  dryRun : Bool
  /-- the random word for the pause of a deletion after a call -/
  word : (deletion n : Nat) → Nat

/-- A pass that has ended. -/
structure Evaluation (σ : Type) where
  result : PassResult
  bucket : Bucket
  calls : List (Millis × DeleteCall)
  peak : Nat
  finish : Millis
  world : σ

namespace Evaluator

/-- How many calls of a policy's pass may be under way: the policy's own number if positive, else the default, but at
least one. -/
def batchSize (e : Evaluator) (b : Behavior) : Nat :=
  match b.batchSize with
  | some n => if 0 < n then n.toNat else max e.defaultBatchSize 1
  | none => max e.defaultBatchSize 1

/-- The plan for the deletion of resources in the manner of a policy. -/
def plan (e : Evaluator) (b : Behavior) (expired : List Resource) : PassPlan :=
  { deletions := (expired.map (Deletion.ofResource b)).toArray
    dryRun := b.dryRun || e.dryRun
    slots := e.batchSize b
    limit := e.retry.limit
    pause := fun i n => e.retry.delay? n (e.word i n)
    round := Rounding.nearest }

/-- What a survey alone counts; nothing is deleted. -/
def scan (p : Policy) (target : WatchTarget) (now : Instant) (snapshot : List Resource) : PassResult :=
  .ofSurvey (.of p.spec target.namespace now snapshot)

/-- Runs one pass of a policy over a snapshot. None when the pass comes to a pause or a wait that has no duration, or
takes more steps than are allowed for it, as it does only if tokens come in too slowly for the arithmetic to tell. -/
def evaluate {σ : Type} (e : Evaluator) (backend : DeleteBackend σ) (p : Policy) (target : WatchTarget) (now : Instant)
    (snapshot : List Resource) (bucket : Bucket) (clock : Millis) (cancelAt : Option Millis) (world : σ) :
    Option (Evaluation σ) :=
  if Retry.cancelledBy cancelAt clock then
    some { result := { cancelled := true }, bucket, calls := [], peak := 0, finish := clock, world }
  else
    let survey := Survey.of p.spec target.namespace now snapshot
    let plan := e.plan p.spec.behavior survey.expired
    (Schedule.run plan backend bucket clock cancelAt world).map fun s =>
      { result := .tally survey (s.pass.settlements.reverse.map (·.2))
        bucket := s.pass.bucket
        calls := s.pass.calls.reverse.map fun c =>
          (Millis.reaching c.1, (plan.deletions[c.2]?.getD default).call)
        peak := s.peak
        finish := s.clock
        world := s.world }

end Evaluator

end Reaper
