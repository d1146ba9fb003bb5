import Reaper.Reconciler
import Reaper.Registry.Task

/-!
Reconciling several things side by side.

A thread is a program in progress. It can be interrupted at every question, and while a question to the registry is
worked on as a task. `ReconcilerRun.step` lets one thread go on to its next point; the world outside is whatever the
events say.
-/

namespace Reaper

/-- What the world outside answers at a step. -/
structure Supply where
  isLeader : Bool
  now : Instant
  /-- the moment of the running clock -/
  moment : Duration
  /-- how the opening of a watch ends -/
  watch : Except WatchError Bool := .ok false
  snapshot : List Resource := []
  result : PassResult := {}
  /-- the limiter as a pass leaves it -/
  bucket : Bucket := default
  patched : Except Fault Unit := .ok ()

namespace Question

/-- The task that works on a question to the registry, and what its result says. -/
def task? : (q : Question) → Option (Task × (TaskResult → q.Answer))
  | state uid =>
    some (.read uid, fun
      | .found (some s) _ => s.state
      | _ => .notTracked)
  | setState uid s => some (.setState uid s, fun _ => ())
  | ensure uid target rate =>
    some (.ensure uid target (.ofInt rate), fun
      | .ensured r => r
      | _ => .ok .reused)
  | handles uid =>
    some (.read uid, fun
      | .found _ h => h
      | _ => none)
  | remove uid =>
    some (.remove uid, fun
      | .removed uids => !uids.isEmpty
      | _ => false)
  | prune live =>
    some (.prune live, fun
      | .removed uids => uids
      | _ => [])
  | _ => none

/-- What the world outside and the pass records answer, and the records after that. None when there is no answer. -/
def direct? : (q : Question) → Supply → Dictionary PassRecord → Option (q.Answer × Dictionary PassRecord)
  | isLeader, s, passes => some (s.isLeader, passes)
  | now, s, passes => some (s.now, passes)
  | lastPass uid, _, passes => some (passes.get? uid, passes)
  | remember uid record, _, passes => some ((), passes.insert uid record)
  | forget uid, _, passes => some ((), passes.erase uid)
  | forgetOthers live, _, passes => some ((), passes.filter fun uid _ => live.contains uid)
  | snapshot _, s, passes => some (s.snapshot, passes)
  | evaluate _ _, s, passes => some (s.result, passes)
  | notify _ _, _, passes => some ((), passes)
  | writeStatus _ _, _, passes => some ((), passes)
  | patch _ _ _, s, passes => some (s.patched, passes)
  | state _, _, passes => some (.notTracked, passes)
  | setState _ _, _, passes => some ((), passes)
  | ensure _ _ _, _, passes => some (.ok .reused, passes)
  | handles _, _, passes => some (none, passes)
  | remove _, _, passes => some (false, passes)
  | prune _, _, passes => some ([], passes)
  | halt, _, _ => none

/-- What a question does to the registry without a task: a pass takes tokens from its limiter. -/
def spend : Question → Supply → Registry → Registry
  | evaluate _ h, s, r => { r with limiters := r.limiters.setIfInBounds h.limiter s.bucket }
  | _, _, r => r

end Question

/-- A program in progress. -/
inductive Thread (α : Type) where
  | asking (program : Reconciling α)
  | working (task : Task) (next : TaskResult → Reconciling α)

namespace Thread

variable {α : Type}

/-- The task that the thread works on. -/
def task? : Thread α → Option Task
  | working t _ => some t
  | asking _ => none

/-- The value of the program, once it has ended. -/
def value? : Thread α → Option α
  | asking (Program.done a) => some a
  | _ => none

end Thread

/-- The stores of a reconciler and the threads on them. -/
structure ReconcilerRun (α : Type) where
  registry : Registry := {}
  passes : Dictionary PassRecord := {}
  threads : Array (Thread α) := #[]

namespace ReconcilerRun

variable {α : Type}

/-- No other thread is at work on a slot. -/
def isFree (s : ReconcilerRun α) (thread slot : Nat) : Bool :=
  (List.range s.threads.size).all fun j =>
    j = thread || (s.threads[j]?.bind fun t => t.task?.bind Task.holds?) ≠ some slot

/-- Puts a thread in place of thread `i`. -/
def put (s : ReconcilerRun α) (i : Nat) (t : Thread α) : ReconcilerRun α :=
  { s with threads := s.threads.setIfInBounds i t }

/-- Lets thread `i` go on to its next point. A thread whose question has no answer stays where it is. -/
def step (s : ReconcilerRun α) (i : Nat) (supply : Supply) : ReconcilerRun α :=
  match s.threads[i]? with
  | none => s
  | some (.asking (Program.done _)) => s
  | some (.asking (Program.ask q next)) =>
    match q.task? with
    | some (task, read) => s.put i (.working task fun r => next (read r))
    | none =>
      match q.direct? supply s.passes with
      | none => s
      | some (a, passes) => { s with passes, registry := q.spend supply s.registry }.put i (.asking (next a))
  | some (.working task next) =>
    let (registry, task) := task.advance s.registry (s.isFree i) supply.moment supply.watch
    match task.result? with
    | some r => { s with registry }.put i (.asking (next r))
    | none => { s with registry }.put i (.working task next)

/-- Lets threads go on in a given order. -/
def run (s : ReconcilerRun α) (events : List (Nat × Supply)) : ReconcilerRun α :=
  events.foldl (fun s e => s.step e.1 e.2) s

def isFinished (s : ReconcilerRun α) : Bool := s.threads.all fun t => t.value?.isSome

end ReconcilerRun

end Reaper
