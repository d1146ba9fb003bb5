import Reaper.Retry.Call
import Reaper.Policy
import Reaper.Resource

/-!
Deletions: the call that is made for a resource, and how a deletion of a pass can end.

The call names the resource and carries its identity, so that a resource of the same name that came later survives.
-/

namespace Reaper

/-- A call that deletes a resource. -/
structure DeleteCall where
  «namespace» : Option String
  name : String
  /-- the identity that the resource must have -/
  uid : Option String := none
  propagation : Option Propagation := none
  gracePeriodSeconds : Option Nat := none
  deriving DecidableEq, Repr, Inhabited

namespace DeleteCall

/-- The call that deletes a resource in the manner of a policy. -/
def ofResource (b : Behavior) (r : Resource) : DeleteCall :=
  { «namespace» := r.metadata.namespace
    name := r.name
    uid := r.metadata.uid
    propagation := some b.propagationPolicy
    gracePeriodSeconds := b.gracePeriodSeconds }

/-- The options of the call as they are sent. -/
def options (c : DeleteCall) : Json :=
  Json.ofPresent
    [("gracePeriodSeconds", c.gracePeriodSeconds.map Json.ofNat),
      ("preconditions", c.uid.map fun uid => Json.ofFields [("uid", .string uid)]),
      ("propagationPolicy", c.propagation.map fun p => .string p.text)]

end DeleteCall

/-- A deletion of a pass: how messages name the resource, and the call. -/
structure Deletion where
  label : String
  call : DeleteCall
  deriving DecidableEq, Repr, Inhabited

/-- The deletion of a resource in the manner of a policy. -/
def Deletion.ofResource (b : Behavior) (r : Resource) : Deletion := ⟨r.label, .ofResource b r⟩

/-- How a deletion of a pass ended. -/
inductive Disposition where
  | deleted
  | dryRun
  | failed (message : String)
  | cancelled
  deriving DecidableEq, Repr

/-- What the outcome of its calls means for a deletion. A resource found gone counts as deleted. -/
def Deletion.dispose (d : Deletion) : DeleteOutcome → Disposition
  | .deleted _ | .alreadyGone _ => .deleted
  | .cancelled _ => .cancelled
  | .failedForGood n f => .failed (d.label ++ ": " ++ (DeleteOutcome.failedForGood n f).message)
  | .retriesExhausted n f => .failed (d.label ++ ": " ++ (DeleteOutcome.retriesExhausted n f).message)

end Reaper
