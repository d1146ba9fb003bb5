import Reaper.Bucket
import Reaper.Deletion
import Reaper.Time.Millis

/-!
The deletions of one pass, running side by side.

Every deletion takes a token, then a slot for each of its calls, and pauses between calls without a slot. `Pass.step`
moves the pass on by one event: time goes by, the pass is cancelled, a deletion is resumed, a call is answered. Any
sequence of events is allowed; an event that does not fit changes nothing. Slots are handed on in the order in which
they were asked for. A token is asked for before the first slot, and who waits for a slot is not disturbed by
cancellation: it is looked at again only after the call.
-/

namespace Reaper

/-- Where a deletion stands. The numbers count its calls, the one it is about to make included. -/
inductive Stage where
  | fresh
  | awaitingToken (wake : Duration)
  | awaitingSlot (calls : Nat)
  /-- a slot has been handed to it -/
  | granted (calls : Nat)
  | calling (calls : Nat)
  | pausing (calls : Nat) (wake : Duration)
  | settled (disposition : Disposition)
  /-- it would have to wait longer than any duration -/
  | stranded
  deriving DecidableEq, Repr, Inhabited

/-- What stays the same during a pass. -/
structure PassPlan where
  deletions : Array Deletion
  dryRun : Bool
  /-- how many calls may be under way -/
  slots : Nat
  /-- how often a deletion is tried -/
  limit : Nat
  /-- the pause of a deletion after its call number `n + 1` -/
  pause : (deletion n : Nat) → Option Duration
  round : Rounding

/-- The state of a pass. -/
structure Pass where
  now : Duration
  cancelled : Bool
  bucket : Bucket
  /-- the slots that nobody has -/
  free : Nat
  /-- the deletions that wait for a slot, first come first -/
  queue : List Nat
  stages : Array Stage
  /-- when calls were begun, and for which deletion; the latest first -/
  calls : List (Duration × Nat)
  /-- how deletions ended; the latest first -/
  settlements : List (Nat × Disposition)
  deriving Repr

/-- What can happen to a pass. -/
inductive PassEvent where
  | advance (elapsed : Duration)
  | cancel
  | resume (deletion : Nat)
  | reply (deletion : Nat) (reply : Reply)
  deriving Repr

namespace Stage

def holdsSlot : Stage → Bool
  | granted _ | calling _ => true
  | _ => false

/-- The deletion has a call under way. -/
def isCalling : Stage → Bool
  | calling _ => true
  | _ => false

/-- How the deletion ended, if it has. -/
def disposition? : Stage → Option Disposition
  | settled d => some d
  | _ => none

/-- The stage of a deletion that is handed a slot. -/
def grant : Stage → Stage
  | awaitingSlot n => granted n
  | s => s

/-- The moment until which the deletion sleeps. -/
def wake? : Stage → Option Duration
  | awaitingToken wake => some wake
  | pausing _ wake => some wake
  | _ => none

end Stage

namespace Pass

/-- A pass in which nothing has happened yet. -/
def start (plan : PassPlan) (bucket : Bucket) (now : Duration) : Pass :=
  { now, cancelled := false, bucket, free := plan.slots, queue := []
    stages := plan.deletions.map fun _ => .fresh
    calls := [], settlements := [] }

variable (plan : PassPlan)

def put (i : Nat) (s : Stage) (p : Pass) : Pass := { p with stages := p.stages.setIfInBounds i s }

def settle (i : Nat) (d : Disposition) (p : Pass) : Pass :=
  { p.put i (.settled d) with settlements := (i, d) :: p.settlements }

/-- Begins call number `n` of a deletion that has a slot. -/
def beginCall (i n : Nat) (p : Pass) : Pass :=
  { p.put i (.calling n) with calls := (p.now, i) :: p.calls }

/-- Takes a free slot for call number `n`, or queues for one. -/
def seekSlot (i n : Nat) (p : Pass) : Pass :=
  if 0 < p.free then { p with free := p.free - 1 }.beginCall i n
  else { p.put i (.awaitingSlot n) with queue := p.queue ++ [i] }

/-- How a deletion ends when its calls have ended so. -/
def disposition (i : Nat) (o : DeleteOutcome) : Disposition := (plan.deletions[i]?.getD default).dispose o

/-- Makes another call after `n` calls, unless the pass has been cancelled. -/
def attempt (i n : Nat) (p : Pass) : Pass :=
  match RetryState.start p.cancelled n with
  | .calling n => p.seekSlot i n
  | .done o => p.settle i (disposition plan i o)
  | _ => p

/-- Asks for a token, and goes on to the first call with it. -/
def seekToken (i : Nat) (p : Pass) : Pass :=
  if p.cancelled then p.settle i .cancelled
  else
    match p.bucket.request plan.round p.now with
    | (b, .granted) => { p with bucket := b }.attempt plan i 0
    | (b, .wait d) => { p with bucket := b }.put i (.awaitingToken (p.now.waitEnd d))
    | (b, .unrepresentable) => { p with bucket := b }.put i .stranded

/-- Resumes a deletion that can go on: a new one, one whose sleep is over or cut short, or one with a new slot. -/
def resume (i : Nat) (p : Pass) : Pass :=
  match p.stages[i]? with
  | some .fresh =>
    if p.cancelled then p.settle i .cancelled
    else if plan.dryRun then p.settle i .dryRun
    else p.seekToken plan i
  | some (.awaitingToken wake) =>
    if p.cancelled then p.settle i .cancelled
    else if wake ≤ p.now then p.seekToken plan i
    else p
  | some (.granted n) => p.beginCall i n
  | some (.pausing n wake) =>
    if p.cancelled then p.settle i (disposition plan i (.cancelled n))
    else if wake ≤ p.now then p.attempt plan i n
    else p
  | _ => p

/-- Gives a slot back: to the first in the queue, if there is one. -/
def releaseSlot (p : Pass) : Pass :=
  match p.queue with
  | [] => { p with free := p.free + 1 }
  | j :: rest => { p with queue := rest, stages := p.stages.modify j Stage.grant }

/-- Answers the call of a deletion: the slot is given back, and the deletion ends or pauses. -/
def reply (i : Nat) (r : Reply) (p : Pass) : Pass :=
  match p.stages[i]? with
  | some (.calling n) =>
    let p := p.releaseSlot
    match RetryState.answered plan.limit n r with
    | .done o => p.settle i (disposition plan i o)
    | .pausing n =>
      match plan.pause i (n - 1) with
      | none => p.put i .stranded
      | some d => (p.put i (.pausing n (p.now.sleepEnd d))).resume plan i
    | _ => p
  | _ => p

/-- Moves a pass on by one event. -/
def step (p : Pass) : PassEvent → Pass
  | .advance d => { p with now := ⟨p.now.nanos + d.nanos⟩ }
  | .cancel => { p with cancelled := true }
  | .resume i => p.resume plan i
  | .reply i r => p.reply plan i r

/-- Moves a pass on by a sequence of events. -/
def run (p : Pass) (events : List PassEvent) : Pass := events.foldl (step plan) p

def isSettled (p : Pass) : Bool := p.stages.all fun s => s.disposition?.isSome

/-- Some deletion cannot go on. -/
def isStranded (p : Pass) : Bool := p.stages.any (· = .stranded)

/-- The number of calls under way. -/
def inFlight (p : Pass) : Nat := p.stages.countP Stage.isCalling

end Pass

end Reaper
