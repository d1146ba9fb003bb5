import Reaper.Pass

/-!
A pass along the running clock.

A schedule chooses the events of a pass: deletions are resumed in the order in which they became ready, and when
nobody is ready time jumps to the next alarm. An alarm ends a sleep or brings a reply. Cancellation at a set time ends
every sleep. A schedule ends when every deletion has ended.
-/

namespace Reaper

/-- Who answers the calls of a pass and is told of its failures. -/
structure DeleteBackend (σ : Type) where
  /-- the reply to a call, and after which time it comes; none if it is there at once -/
  answer : σ → Millis → DeleteCall → (Reply × Option Duration) × σ
  /-- a deletion has failed -/
  failed : σ → Deletion → (message : String) → σ

/-- What a deletion does when its turn has come. -/
inductive Turn where
  | resume (deletion : Nat)
  | deliver (deletion : Nat) (reply : Reply)
  deriving Repr

namespace Turn

def deletion : Turn → Nat
  | resume i => i
  | deliver i _ => i

/-- The turn as an event of the pass. -/
def event : Turn → PassEvent
  | resume i => .resume i
  | deliver i r => .reply i r

/-- The turn brings a reply. -/
def isDelivery : Turn → Bool
  | deliver .. => true
  | resume _ => false

end Turn

/-- A pass and what is to happen to it. -/
structure Schedule (σ : Type) where
  pass : Pass
  clock : Millis
  /-- the turns that can be taken now, first come first -/
  ready : List Turn
  /-- the turns that come later, in the order in which they were arranged -/
  alarms : List (Millis × Turn)
  cancelAt : Option Millis
  world : σ
  /-- the most calls that were under way at once -/
  peak : Nat

namespace Schedule

variable {σ : Type} (plan : PassPlan) (backend : DeleteBackend σ)

/-- The schedule of a new pass: every deletion is ready. -/
def start (bucket : Bucket) (clock : Millis) (cancelAt : Option Millis) (world : σ) : Schedule σ :=
  { pass := Pass.start plan bucket clock.moment
    clock
    ready := (List.range plan.deletions.size).map .resume
    alarms := [], cancelAt, world, peak := 0 }

/-- Who has been handed the slot of a call that was answered. -/
def handedTo (p : Pass) (t : Turn) : List Turn :=
  if t.isDelivery then (p.queue.head?.toList).map .resume else []

/-- Arranges what comes after a turn of a deletion that now stands at a stage: the reply to its call, or the end of its
sleep. -/
def follow (i : Nat) (s : Schedule σ) : Schedule σ :=
  match s.pass.stages[i]? with
  | some (.calling _) =>
    match backend.answer s.world s.clock (plan.deletions[i]?.getD default).call with
    | ((r, none), world) => { s with world, ready := .deliver i r :: s.ready }
    | ((r, some d), world) =>
      if d.nanos = 0 then { s with world, ready := s.ready ++ [.deliver i r] }
      else { s with world, alarms := s.alarms ++ [(s.clock.after d, .deliver i r)] }
  | some (.settled (.failed message)) =>
    { s with world := backend.failed s.world (plan.deletions[i]?.getD default) message }
  | some stage =>
    match stage.wake? with
    | some wake => { s with alarms := s.alarms ++ [(Millis.reaching wake, .resume i)] }
    | none => s
  | none => s

def act (t : Turn) (s : Schedule σ) : Schedule σ :=
  let pass := s.pass.step plan t.event
  follow plan backend t.deletion
    { s with pass, ready := s.ready ++ handedTo s.pass t, peak := max s.peak pass.inFlight }

/-- The cancellation that is still to come. -/
def cancellation? (s : Schedule σ) : Option Millis := if s.pass.cancelled then none else s.cancelAt

/-- The time of the next alarm or of the cancellation. -/
def next? (s : Schedule σ) : Option Millis :=
  ((s.alarms.map (·.1)) ++ s.cancellation?.toList).min?

/-- Lets time go by until `t`. What is due becomes ready; a cancellation makes every sleeper ready. -/
def jump (t : Millis) (s : Schedule σ) : Schedule σ :=
  let pass := s.pass.step plan (.advance ⟨t.moment.nanos - s.pass.now.nanos⟩)
  if s.cancellation?.any (· ≤ t) then
    let sleepers := (List.range pass.stages.size).filter fun i => (pass.stages[i]?.bind Stage.wake?).isSome
    { s with
      pass := pass.step plan .cancel
      clock := t
      ready := s.ready ++ sleepers.map .resume
      alarms := s.alarms.filter (·.2.isDelivery) }
  else
    { s with
      pass
      clock := t
      ready := s.ready ++ (s.alarms.filter (·.1 ≤ t)).map (·.2)
      alarms := s.alarms.filter (t < ·.1) }

/-- One step of a schedule: the first turn is taken, or time jumps to what comes next. None when nothing does. -/
def step? (s : Schedule σ) : Option (Schedule σ) :=
  match s.ready with
  | t :: ready => some (act plan backend t { s with ready })
  | [] => s.next?.map fun t => jump plan t s

/-- The schedule in another world. -/
def inWorld {τ : Type} (s : Schedule σ) (world : τ) : Schedule τ := { s with world }

/-- Runs a schedule until every deletion has ended; none when one cannot go on, or when it takes more than so many
steps. -/
def runFor : Nat → Schedule σ → Option (Schedule σ)
  | 0, s => if s.pass.isSettled then some s else none
  | fuel + 1, s =>
    if s.pass.isStranded then none
    else if s.pass.isSettled then some s
    else
      match s.ready with
      | t :: ready => runFor fuel (act plan backend t { s with ready })
      | [] =>
        match s.next? with
        | none => none
        | some t => runFor fuel (jump plan t s)

/-- A bound on the turns and jumps of a pass. Each call takes three turns, and whenever a token was given everybody else
may ask for one in vain for so long. -/
def bound (bucket : Bucket) : Nat :=
  let n := plan.deletions.size
  2 * (n * (3 * plan.limit + 4) + (n + 1) * (n + 2) * (bucket.vainTries + 1)) + 2

/-- Runs a new pass to its end. None when a deletion cannot go on, or when the pass takes more steps than the bound, as
none does whose bucket fills in good time. -/
def run (bucket : Bucket) (clock : Millis) (cancelAt : Option Millis) (world : σ) : Option (Schedule σ) :=
  runFor plan backend (bound plan bucket) (start plan bucket clock cancelAt world)

end Schedule

end Reaper
