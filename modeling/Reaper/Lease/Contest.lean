import Reaper.Lease.Call

/-!
Claims to one lease side by side.

Any number of candidates claim the lease, each claim with its own reading of the clock. The server keeps the lease and
handles one call after the other, in any order. A lease that it keeps has a version of its own: a lease can be created
only when there is none, and replaced only by one that bears its version. Calls may get lost, and so may replies to
calls that were handled. Others may edit the lease or delete it.

A candidate goes on as soon as its call is handled. That the reply takes time makes no difference, since any other calls
can be handled before its next one.
-/

namespace Reaper

/-- The instant in whole microseconds. -/
def Instant.wholeMicros (t : Instant) : Instant := ⟨t.secs, t.nanos / 1000 * 1000⟩

/-- The specification as the server keeps it: times have whole microseconds. -/
def LeaseSpec.kept (s : LeaseSpec) : LeaseSpec :=
  { s with acquired := s.acquired.map .wholeMicros, renewed := s.renewed.map .wholeMicros }

namespace Lease

def version? (l : Lease) : Option String := l.metadata.resourceVersion

/-- The lease as the server keeps it, with the metadata that the server gives it. -/
def keptWith (l : Lease) (metadata : Metadata) : Lease := ⟨metadata, l.spec.kept⟩

end Lease

/-- A claim in progress. -/
structure LeaseClaim where
  candidate : Candidate
  /-- the candidate's reading of the clock -/
  now : Instant
  rest : LeaseProgram (Option (Except ClaimError Unit))

/-- A write that the server accepted. -/
structure LeaseWrite where
  /-- the number of the claim that made it -/
  claim : Nat
  writer : Candidate
  /-- the writer's reading of the clock -/
  now : Instant
  /-- the lease before the write -/
  before : Option Lease
  after : Lease

/-- A lease and the claims to it. -/
structure LeaseContest where
  current : Option Lease := none
  /-- the versions that the lease has had so far -/
  versions : List String := []
  claims : Array LeaseClaim := #[]
  /-- the latest first -/
  writes : List LeaseWrite := []

/-- What happens next. -/
inductive LeaseEvent where
  /-- a candidate reads its clock and begins a claim -/
  | begin (c : Candidate) (now : Instant)
  /-- the server handles the call of a claim; a lease that it keeps gets some metadata. The reply may be lost. -/
  | handle (claim : Nat) (metadata : Metadata) (lost : Option Fault)
  /-- the call of a claim does not reach the server -/
  | fail (claim : Nat) (fault : Fault)
  /-- somebody else writes the lease, or deletes it -/
  | edit (l : Option Lease)

namespace LeaseContest

/-- The metadata bears a version that the lease has never had. -/
def isFresh (s : LeaseContest) (metadata : Metadata) : Bool := metadata.resourceVersion.any (· ∉ s.versions)

/-- Keeps a lease. -/
def keep (s : LeaseContest) (l : Lease) : LeaseContest :=
  { s with current := some l, versions := l.version?.toList ++ s.versions }

/-- The reply of the server, and the lease that it keeps if it accepts a write. -/
def reply (s : LeaseContest) (metadata : Metadata) : (q : LeaseCall) → q.Answer × Option Lease
  | .read => (.ok s.current, none)
  | .create l =>
    match s.current with
    | none => (.ok (l.keptWith metadata), some (l.keptWith metadata))
    | some _ => (.error (.api "Failure" "leases already exists" "AlreadyExists" 409), none)
  | .replace l =>
    if s.current.any fun current => current.version? = l.version? then
      (.ok (l.keptWith metadata), some (l.keptWith metadata))
    else (.error (.api "Failure" "the object has been modified" "Conflict" 409), none)

/-- A claim goes on with an answer. -/
def goOn (s : LeaseContest) (i : Nat) (claim : LeaseClaim) (rest : LeaseProgram (Option (Except ClaimError Unit))) :
    LeaseContest :=
  { s with claims := s.claims.setIfInBounds i { claim with rest } }

/-- Accepts a write of a claim, if there is one. -/
def accept (s : LeaseContest) (i : Nat) (claim : LeaseClaim) : Option Lease → LeaseContest
  | none => s
  | some l => { s.keep l with writes := ⟨i, claim.candidate, claim.now, s.current, l⟩ :: s.writes }

def step (s : LeaseContest) : LeaseEvent → LeaseContest
  | .begin c now => { s with claims := s.claims.push ⟨c, now, c.plan now⟩ }
  | .handle i metadata lost =>
    match s.claims[i]? with
    | none => s
    | some claim =>
      match claim.rest with
      | .done _ => s
      | .ask q next =>
        if s.isFresh metadata then
          let (answer, written) := s.reply metadata q
          let answer := (lost.map fun fault => q.failure fault).getD answer
          (s.accept i claim written).goOn i claim (next answer)
        else s
  | .fail i fault =>
    match s.claims[i]? with
    | none => s
    | some claim =>
      match claim.rest with
      | .done _ => s
      | .ask q next => s.goOn i claim (next (q.failure fault))
  | .edit none => { s with current := none }
  | .edit (some l) => if s.isFresh l.metadata then s.keep (l.keptWith l.metadata) else s

def run (s : LeaseContest) (events : List LeaseEvent) : LeaseContest := events.foldl step s

end LeaseContest

end Reaper
