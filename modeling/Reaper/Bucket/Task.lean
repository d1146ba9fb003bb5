import Reaper.Bucket
import Reaper.Time.Millis

/-!
Calls of a limiter side by side.

Any number of tasks share one bucket. A task that acquires a token tries for it, sleeps for as long as the missing part
takes to come in, and tries again, until it has a token or is cancelled; a task that tries only once, or changes the
rate, ends at once. `LimiterRun.step` lets one task go on; any order of steps is allowed.
-/

namespace Reaper

/-- How a call of a limiter ended. -/
inductive LimiterResult where
  | granted
  /-- there was no token, and nobody waited for one -/
  | missed
  | reconfigured
  | failed (e : LimiterError)
  /-- the wait for a token is longer than any duration -/
  | unrepresentable
  deriving DecidableEq, Repr

/-- A call of a limiter in progress. -/
inductive LimiterTask where
  /-- acquires a token, and sleeps until a moment; a call that has not begun does not sleep -/
  | acquiring (wake : Duration)
  | trying
  | reconfiguring (rate : Binary64)
  | ended (result : LimiterResult)
  deriving DecidableEq, Repr

/-- A limiter and the calls on it. -/
structure LimiterRun where
  bucket : Bucket
  tasks : Array LimiterTask
  /-- when tokens were granted, the latest first -/
  grants : List Duration := []
  deriving DecidableEq, Repr

/-- The next task to go on: its number, the moment, and whether its cancellation has come. -/
structure LimiterEvent where
  task : Nat
  now : Duration
  cancelled : Bool := false
  deriving DecidableEq, Repr

namespace LimiterRun

variable (round : Rounding)

/-- Puts a task in place of task `i`. -/
def put (s : LimiterRun) (i : Nat) (t : LimiterTask) : LimiterRun := { s with tasks := s.tasks.setIfInBounds i t }

/-- Task `i` tries for a token; without one it goes on as `later` says. -/
def attempt (s : LimiterRun) (i : Nat) (now : Duration) (later : Duration → LimiterTask) : LimiterRun :=
  match s.bucket.request round now with
  | (b, .granted) => { s with bucket := b, grants := now :: s.grants }.put i (.ended .granted)
  | (b, .wait d) => { s with bucket := b }.put i (later d)
  | (b, .unrepresentable) => { s with bucket := b }.put i (.ended .unrepresentable)

/-- Lets one task go on. A task that sleeps goes on when its sleep is over or its cancellation has come. -/
def step (s : LimiterRun) (e : LimiterEvent) : LimiterRun :=
  match s.tasks[e.task]? with
  | some (.acquiring wake) =>
    if e.cancelled then s.put e.task (.ended (.failed .cancelled))
    else if e.now < wake then s
    else s.attempt round e.task e.now fun d => .acquiring (e.now.sleepEnd d)
  | some .trying => s.attempt round e.task e.now fun _ => .ended .missed
  | some (.reconfiguring x) =>
    match Bucket.rate? x with
    | .error error => s.put e.task (.ended (.failed error))
    | .ok q => { s with bucket := s.bucket.setRate round e.now q }.put e.task (.ended .reconfigured)
  | some (.ended _) => s
  | none => s

/-- Lets tasks go on in a given order. -/
def run (s : LimiterRun) (events : List LimiterEvent) : LimiterRun := events.foldl (step round) s

/-- A new limiter and the calls on it, none of which has begun. -/
def begin (rate : Rat) (now : Duration) (tasks : Array LimiterTask) : LimiterRun :=
  { bucket := .full rate now, tasks }

end LimiterRun

end Reaper
