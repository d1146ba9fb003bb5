import Reaper.Api.Collection
import Reaper.Lease
import Reaper.Settings

/-!
Claims to a lease.

A candidate reads the lease and then makes one move: it creates the lease when there is none, renews it when the lease
is its own, takes it over when it has expired, and otherwise leaves it alone. Since a lease is written back with the
version that was read, a write fails when somebody else has written in between; the lease then counts as held by
another.
-/

namespace Reaper

/-- Who stands for election, and for which lease. -/
structure Candidate where
  identity : String
  leaseName : String
  leaseNamespace : String
  leaseDuration : Duration
  renewInterval : Duration
  deriving DecidableEq, Repr

/-- A candidate under the settings of an election. -/
def ElectionSettings.candidate (s : ElectionSettings) (identity : String) : Candidate :=
  { identity, leaseName := s.leaseName, leaseNamespace := s.leaseNamespace
    leaseDuration := Duration.ofSecs s.leaseDurationSeconds
    renewInterval := Duration.ofSecs s.renewIntervalSeconds }

/-- Why a claim did not succeed. -/
inductive ClaimError where
  | api (fault : Fault)
  | held (holder : String)
  /-- the duration does not fit into a lease -/
  | durationTooLarge
  deriving DecidableEq, Repr

def ClaimError.message : ClaimError → String
  | api fault => "Kubernetes API error: " ++ fault.text
  | held holder => "Lease is held by another holder: " ++ holder
  | durationTooLarge => "Lease validation failed: lease duration too large"

/-- What a candidate does after it has read the lease. -/
inductive LeaseMove where
  | create (l : Lease)
  | replace (l : Lease)
  | refrain (e : ClaimError)

namespace Candidate

variable (c : Candidate)

/-- What the lease says when the candidate holds it. -/
def hold (acquired renewed : Instant) (transitions : Int) : Except ClaimError LeaseSpec :=
  if (c.leaseDuration.secs : Int) ≤ Json.int32Limits.2 then
    .ok
      { holder := some c.identity, durationSeconds := some c.leaseDuration.secs, acquired := some acquired
        renewed := some renewed, transitions := some transitions }
  else .error .durationTooLarge

/-- The lease is the candidate's own. -/
def owns (s : LeaseSpec) : Bool := s.holder = some c.identity

/-- The move that writes what the candidate wants to hold. -/
def moveTo (write : LeaseSpec → LeaseMove) : Except ClaimError LeaseSpec → LeaseMove
  | .ok s => write s
  | .error e => .refrain e

/-- The candidate's move after reading the lease, or that there is none. None when the deadline of the lease is out of
range, or its transitions can be counted no further. -/
def move? (now : Instant) : Option Lease → Option LeaseMove
  | none =>
    let metadata : Metadata := { name := some c.leaseName, «namespace» := some c.leaseNamespace }
    some (moveTo (fun s => .create ⟨metadata, s⟩) (c.hold now now 0))
  | some l =>
    let replace (s : LeaseSpec) : LeaseMove := .replace { l with spec := s }
    let transitions := l.spec.transitions.getD 0
    if c.owns l.spec then some (moveTo replace (c.hold (l.spec.acquired.getD now) now transitions))
    else
      match l.spec.expired? now with
      | none => none
      | some false => some (.refrain (.held (l.spec.holder.getD "unknown")))
      | some true =>
        if transitions = Json.int32Limits.2 then none else some (moveTo replace (c.hold now now (transitions + 1)))

/-! ## The exchange with the server -/

def leases : Api.Collection :=
  { group := "coordination.k8s.io", version := "v1", «namespace» := some c.leaseNamespace, plural := "leases" }

def read : Api.Exchange (Except Fault (Option Lease)) := do
  let result ← Api.callNamed c.leaseName { method := .get, path := c.leases.objectPath c.leaseName, bare := true }
    (Api.Response.decode Lease.decode?)
  match result with
  | .ok l => pure (.ok (some l))
  | .error (.api status message reason code) =>
    if reason = "NotFound" then pure (.ok none) else pure (.error (.api status message reason code))
  | .error fault => pure (.error fault)

/-- What the reply to a write means. -/
def written : Except Fault Lease → Except ClaimError Unit
  | .ok _ => .ok ()
  | .error (.api status message reason code) =>
    if code = 409 then .error (.held "unknown") else .error (.api (.api status message reason code))
  | .error fault => .error (.api fault)

def perform : LeaseMove → Api.Exchange (Except ClaimError Unit)
  | .refrain e => pure (.error e)
  | .create l => do
    let request : Api.Request := { method := .post, path := c.leases.path, content := some (.json, l.encode) }
    return written (← Api.call request (Api.Response.decode Lease.decode?))
  | .replace l => do
    let request : Api.Request :=
      { method := .put, path := c.leases.objectPath c.leaseName, content := some (.json, l.encode) }
    return written (← Api.callNamed c.leaseName request (Api.Response.decode Lease.decode?))

/-- Claims the lease at an instant. None when the move cannot be computed. -/
def claim (now : Instant) : Api.Exchange (Option (Except ClaimError Unit)) := do
  match ← c.read with
  | .error fault => return some (.error (.api fault))
  | .ok l =>
    match c.move? now l with
    | none => return none
    | some m => return some (← c.perform m)

end Candidate

end Reaper
