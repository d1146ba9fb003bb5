import Reaper.Lease.Claim
import Reaper.Time.Millis

/-!
Elections: holding a lease by claiming it again and again.

A candidate leads from the first claim that succeeds. It goes on to lead while claims fail for other reasons than that
somebody else holds the lease, for as long as the lease is good since it was last held; then it steps down for ever. The
last part is `Election.count`, one outcome counted; `Election.tick` makes the claim.
-/

namespace Reaper

/-- How an election stands. -/
structure Election where
  leads : Bool := false
  /-- the candidate has led and does not lead any more -/
  lost : Bool := false
  /-- further claims are made -/
  running : Bool := true
  /-- when the lease was last held -/
  lastHeld : Option Duration := none
  deriving DecidableEq, Repr

namespace Election

variable (c : Candidate)

/-- The election of a candidate before the first claim. One whose claims are not to have time between them never
runs. -/
def start : Election := { running := c.renewInterval.nanos ≠ 0 }

/-- The lease that was last held may still be good for the others. -/
def mayStillHold (now : Duration) (e : Election) : Bool :=
  e.leads && e.lastHeld.any fun at' => now.nanos - at'.nanos < c.leaseDuration.nanos

/-- The candidate counts as the holder after a claim that ended at a moment. -/
def holdsAfter (now : Duration) (outcome : Except ClaimError Unit) (e : Election) : Bool :=
  match outcome with
  | .ok () => true
  | .error (.held _) => false
  | .error _ => e.mayStillHold c now

/-- Counts the outcome of a claim that ended at a moment. -/
def count (now : Duration) (outcome : Except ClaimError Unit) (e : Election) : Election :=
  if e.holdsAfter c now outcome then { e with leads := true, lastHeld := some now }
  else if e.leads then { e with leads := false, lost := true, running := false }
  else e

/-- No further claims are made. -/
def stop (e : Election) : Election := { e with running := false }

/-- Makes one claim, if the election runs. A claim to which there is never a reply, or whose move cannot be computed, is
the last one. -/
def tick {σ : Type} (answer : Api.Request → σ → Option Api.Response × σ) (time : Instant) (now : Duration)
    (e : Election) (world : σ) : Election × σ :=
  if e.running then
    match (c.claim time).serve answer world with
    | (some (some outcome), world) => (e.count c now outcome, world)
    | (_, world) => (e.stop, world)
  else (e, world)

end Election

end Reaper
