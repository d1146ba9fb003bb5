import Reaper.Registry

/-!
Operations on the registry side by side.

A task is an operation in progress. It can be interrupted where it waits: for the slot of a policy that another task
is at work on, for a watch to stop, and for a watch to open. Between two such points it is alone. A task that finds its
slot retired looks its policy up again. `RegistryRun.step` lets one task go on to its next point; any order of steps is
allowed.
-/

namespace Reaper

/-- What a task does with the slot of a policy. -/
inductive Goal where
  | ensure (target : WatchTarget) (rate : Binary64)
  | remove
  | setState (s : PolicyState)
  | read
  deriving DecidableEq, Repr

/-- What a task leaves. -/
inductive TaskResult where
  | ensured (result : Except ServeError EnsureOutcome)
  | removed (uids : List String)
  | stored
  /-- the slot that was read, if there was one -/
  | found (slot : Option Slot) (handles : Option Handles)

/-- Where a task waits. -/
inductive Point where
  /-- the policies to remove are still to be listed: those not among the living -/
  | listing (live : List String)
  | lookup
  /-- before the slot -/
  | queued (slot : Nat)
  /-- at work on the slot, for its watch to stop -/
  | stopping (slot : Nat) (held : Bool)
  /-- at work on the slot, for its new watch to open -/
  | opening (slot : Nat) (outcome : EnsureOutcome)
  | finished (result : TaskResult)

/-- An operation in progress. -/
structure Task where
  goal : Goal
  /-- the policies that are left, the present one first -/
  uids : List String
  removed : List String := []
  point : Point := .lookup

namespace Task

/-- Has a watch and a limiter for a policy. -/
def ensure (uid : String) (target : WatchTarget) (rate : Binary64) : Task :=
  { goal := .ensure target rate, uids := [uid] }

def remove (uid : String) : Task := { goal := .remove, uids := [uid] }

/-- Removes all policies that are not among the living. -/
def prune (live : List String) : Task := { goal := .remove, uids := [], point := .listing live }

def shutdown : Task := prune []

def setState (uid : String) (s : PolicyState) : Task :=
  if s = .notTracked then remove uid else { goal := .setState s, uids := [uid] }

def read (uid : String) : Task := { goal := .read, uids := [uid] }

/-- The slot that the task is at work on. -/
def holds? (t : Task) : Option Nat :=
  match t.point with
  | .stopping i _ => some i
  | .opening i _ => some i
  | _ => none

/-- What the task leaves, once it has ended. -/
def result? (t : Task) : Option TaskResult :=
  match t.point with
  | .finished r => some r
  | _ => none

/-- The task makes a slot for a policy that has none. -/
def creates (t : Task) : Bool :=
  match t.goal with
  | .ensure .. | .setState _ => true
  | .remove | .read => false

def finish (t : Task) (r : TaskResult) : Task := { t with point := .finished r }

/-- Goes on to the next policy to remove. -/
def next (t : Task) (held : Bool) : Task :=
  match t.uids with
  | [] => { t with point := .lookup }
  | uid :: rest =>
    { t with uids := rest, removed := if held then t.removed ++ [uid] else t.removed, point := .lookup }

/-- Ends a task that finds no slot for its policy. -/
def missing (t : Task) : Task :=
  match t.goal with
  | .remove => t.next false
  | _ => t.finish (.found none none)

/-- Goes to work on the slot of policy `uid`, which nobody else is at work on and which is not retired. -/
def work (r : Registry) (t : Task) (uid : String) (i : Nat) (now : Duration) : Registry × Task :=
  match t.goal with
  | .ensure target rate =>
    match r.need i target with
    | .nothing =>
      let (result, r) := r.finishEnsure i rate now .reused
      (r, t.finish (.ensured result))
    | .opening .replaced => (r.stopWatch i, { t with point := .stopping i true })
    | .opening outcome => (r.countAttempt, { t with point := .opening i outcome })
  | .remove =>
    let held := (r.slotAt i).isHolding
    if (r.slotAt i).watch.isSome then (r.stopWatch i, { t with point := .stopping i held })
    else (r.retire uid i, t.next held)
  | .setState s => (r.modifySlot i ({ · with state := s }), t.finish .stored)
  | .read => (r, t.finish (.found (some (r.slotAt i)) (r.handlesAt i)))

/-- Goes on after the watch of the slot has stopped. -/
def stopped (r : Registry) (t : Task) (uid : String) (i : Nat) (held : Bool) : Registry × Task :=
  match t.goal with
  | .ensure .. => (r.countAttempt, { t with point := .opening i .replaced })
  | _ => (r.retire uid i, t.next held)

/-- Goes on after the opening of a watch for the slot. -/
def opened (r : Registry) (t : Task) (uid : String) (i : Nat) (outcome : EnsureOutcome) (now : Duration)
    (watch : Except WatchError Bool) : Registry × Task :=
  match t.goal with
  | .ensure target rate =>
    match watch with
    | .error e => (r, t.finish (.ensured (.error (.watch e))))
    | .ok cancelled =>
      let (result, r) := (r.addWatch i uid target cancelled).finishEnsure i rate now outcome
      (r, t.finish (.ensured result))
  | _ => (r, t)

/-- Lets a task go on to its next point. `free` says which slots nobody else is at work on, and `watch` how the opening
of a watch ends if the task waits for one. -/
def advance (r : Registry) (t : Task) (free : Nat → Bool) (now : Duration) (watch : Except WatchError Bool) :
    Registry × Task :=
  match t.point, t.uids with
  | .finished _, _ => (r, t)
  | .listing live, _ => (r, { t with uids := r.stale live, point := .lookup })
  | _, [] => (r, t.finish (.removed t.removed))
  | .lookup, uid :: _ =>
    if t.creates then
      let (i, r) := r.slotFor uid
      (r, { t with point := .queued i })
    else
      match r.slot? uid with
      | some i => (r, { t with point := .queued i })
      | none => (r, t.missing)
  | .queued i, uid :: _ =>
    if !free i then (r, t)
    else if (r.slotAt i).retired then (r, { t with point := .lookup })
    else t.work r uid i now
  | .stopping i held, uid :: _ => t.stopped r uid i held
  | .opening i outcome, uid :: _ => t.opened r uid i outcome now watch

end Task

/-- A registry and the tasks on it. -/
structure RegistryRun where
  registry : Registry
  tasks : Array Task

/-- The next task to go on: its number, the time, and how the opening of a watch ends. -/
structure RegistryEvent where
  task : Nat
  now : Duration
  watch : Except WatchError Bool

namespace RegistryRun

/-- Nobody but the task itself is at work on a slot. -/
def isFree (s : RegistryRun) (task slot : Nat) : Bool :=
  (List.range s.tasks.size).all fun j => j = task || (s.tasks[j]?.bind Task.holds?) ≠ some slot

/-- Lets one task go on to its next point. -/
def step (s : RegistryRun) (e : RegistryEvent) : RegistryRun :=
  match s.tasks[e.task]? with
  | none => s
  | some t =>
    let (registry, t) := t.advance s.registry (s.isFree e.task) e.now e.watch
    { registry, tasks := s.tasks.setIfInBounds e.task t }

/-- Lets tasks go on in a given order. -/
def run (s : RegistryRun) (events : List RegistryEvent) : RegistryRun := events.foldl step s

def isFinished (s : RegistryRun) : Bool := s.tasks.all fun t => t.result?.isSome

end RegistryRun

end Reaper
