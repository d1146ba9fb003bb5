import Reaper.Condition
import Reaper.Ttl

/-!
Surveys: what a policy says about each resource of a snapshot, before anything is deleted.

A resource that the policy covers is exempt (preserved, already terminating, or without a time to live), pending, or
expired. `Survey.of` sorts a snapshot and keeps the expired resources in the order of the snapshot.
-/

namespace Reaper

/-- What a policy says about a resource. -/
inductive Verdict where
  | notCovered
  | exempt
  | pending
  | expired
  deriving DecidableEq, Repr

/-- The resource asks to be preserved: the annotation says `true`, in any case and between any blanks. -/
def Resource.isPreserved (r : Resource) : Bool :=
  (r.annotation? Policy.preserveAnnotation).any fun v => Text.equalsIgnoringCase (Text.trim v.toList) "true"

def Resource.isTerminating (r : Resource) : Bool := r.metadata.deletionTimestamp.isSome

/-- What a policy that watches `scope` says about a resource at an instant. -/
def PolicySpec.verdict (s : PolicySpec) (scope : Option String) (now : Instant) (r : Resource) : Verdict :=
  let doc := r.document
  if !s.covers scope r doc then .notCovered
  else if r.isPreserved || r.isTerminating then .exempt
  else
    match s.ttl.check r doc now with
    | .expired _ => .expired
    | .pending _ => .pending
    | .noTtl => .exempt

/-- A snapshot sorted by the verdicts of a policy. -/
structure Survey where
  matched : Nat
  exempt : Nat
  pending : Nat
  expired : List Resource

namespace Survey

/-- The survey of a snapshot. -/
def of (s : PolicySpec) (scope : Option String) (now : Instant) (snapshot : List Resource) : Survey :=
  let verdicts := snapshot.map (s.verdict scope now)
  { matched := verdicts.countP (· ≠ .notCovered)
    exempt := verdicts.count .exempt
    pending := verdicts.count .pending
    expired := snapshot.filter fun r => s.verdict scope now r = .expired }

end Survey

end Reaper
