import Reaper.Api
import Reaper.Resource

/-!
Leases: who may act, and until when.

The specification of a lease names its holder, when it was renewed, and for how long that is good. Any of this may be
missing; a lease that does not say who holds it until when has expired. A lease keeps its metadata when its
specification is replaced, and with it the version that the writer has seen.
-/

namespace Reaper

/-- What a lease says. -/
structure LeaseSpec where
  holder : Option String := none
  durationSeconds : Option Int := none
  acquired : Option Instant := none
  renewed : Option Instant := none
  /-- how often the lease has changed hands -/
  transitions : Option Int := none
  deriving DecidableEq, Repr, Inhabited

/-- A lease. -/
structure Lease where
  metadata : Metadata
  spec : LeaseSpec
  deriving Inhabited

namespace LeaseSpec

def decode? (j : Json) : Option LeaseSpec := do
  let .object _ := j | none
  let _ ← j.lastOf? "preferredHolder" Json.text?
  let _ ← j.lastOf? "strategy" Json.text?
  some
    { holder := ← j.lastOf? "holderIdentity" Json.text?
      durationSeconds := ← j.lastOf? "leaseDurationSeconds" Json.int32?
      acquired := ← j.lastOf? "acquireTime" Json.instant?
      renewed := ← j.lastOf? "renewTime" Json.instant?
      transitions := ← j.lastOf? "leaseTransitions" Json.int32? }

def encode (s : LeaseSpec) : Json :=
  let time (t : Option Instant) : Option Json := t.map fun i => .string i.toMicroText
  Json.ofPresent
    [("holderIdentity", s.holder.map .string), ("leaseDurationSeconds", s.durationSeconds.map .int),
      ("acquireTime", time s.acquired), ("renewTime", time s.renewed),
      ("leaseTransitions", s.transitions.map .int)]

/-- Somebody holds the lease. -/
def isHeld (s : LeaseSpec) : Bool := s.holder.any (· ≠ "")

/-- The end of the time for which the lease was renewed, where it says one. None within when that is out of range. -/
def deadline? (s : LeaseSpec) : Option (Option Instant) := do
  let renewed ← s.renewed
  let duration ← s.durationSeconds
  some (renewed.addSeconds? duration)

/-- Whether the lease has expired at an instant: nobody holds it, it has no deadline, or its deadline has passed. None
when the deadline is out of range. -/
def expired? (s : LeaseSpec) (now : Instant) : Option Bool :=
  if !s.isHeld then some true
  else
    match s.deadline? with
    | none => some true
    | some deadline => deadline.map fun d => d < now

end LeaseSpec

namespace Lease

def apiVersion : String := "coordination.k8s.io/v1"

/-- Reads a lease. One without a specification says nothing. -/
def decode? (j : Json) : Option Lease := do
  let .object _ := j | none
  let true := Api.isOfType apiVersion "Lease" j | none
  let metadata ← j.lastOf? "metadata" Metadata.decode?
  let spec ← j.lastOf? "spec" LeaseSpec.decode?
  some ⟨metadata.getD {}, spec.getD {}⟩

def encode (l : Lease) : Json :=
  Json.ofFields
    [("apiVersion", .string apiVersion), ("kind", .string "Lease"), ("metadata", l.metadata.encode),
      ("spec", l.spec.encode)]

end Lease

end Reaper
