import Reaper.Reconciler

/-!
Reconciling one thing after the other.

An engine has its own stores, the registry and the pass records, and a world outside that answers the rest of the
questions. `Engine.answer` answers one question, and `Engine.run` runs a program without interruption.
-/

namespace Reaper

/-- How a world outside answers. -/
structure Surroundings (σ : Type) where
  isLeader : σ → Bool
  /-- the time of day -/
  now : σ → Instant × σ
  /-- the running clock -/
  clock : σ → Millis
  /-- lets the running clock go on -/
  elapse : Millis → σ → σ
  /-- when all watches are to be stopped -/
  cancelAt : σ → Option Millis
  /-- opens a watch, and tells whether it was stopped right away -/
  openWatch : WatchTarget → σ → Except WatchError Bool × σ
  /-- what a watch of the registry knows of -/
  snapshot : Nat → WatchTarget → σ → List Resource
  /-- the reply to a call, and after which time it comes; none if it is there at once -/
  delete : WatchTarget → σ → Millis → DeleteCall → (Reply × Option Duration) × σ
  notify : PolicyRef → Notice → σ → σ
  writeStatus : PolicyRef → PolicyStatus → σ → σ
  patch : («namespace» name : String) → Json → σ → Except Fault Unit × σ
  /-- the random word for the pause of a deletion after a call -/
  word : Nat → Nat → Nat

/-- A reconciler's stores and its world. -/
structure Engine (σ : Type) where
  registry : Registry := {}
  passes : Dictionary PassRecord := {}
  world : σ

namespace Engine

variable {σ : Type} (out : Surroundings σ) (c : Settings)

def moment (e : Engine σ) : Duration := (out.clock e.world).moment

/-- When the passes of a watch are to stop. -/
def cancelAt (e : Engine σ) (watch : Nat) : Option Millis :=
  if e.registry.isStopped watch then some (out.clock e.world) else out.cancelAt e.world

/-- Runs one pass of a policy with what it needs. -/
def evaluate (e : Engine σ) (p : Policy) (h : Handles) : Option (PassResult × Engine σ) :=
  let (now, world) := out.now e.world
  let snapshot := out.snapshot h.watch h.target world
  let bucket := (e.registry.limiters[h.limiter]?).getD default
  let backend := DeleteBackend.reporting (out.delete h.target) out.notify p
  ((c.evaluator out.word).evaluate backend p h.target now snapshot bucket (out.clock world)
      (e.cancelAt out h.watch) world).map fun v =>
    (v.result,
      { e with
        registry := { e.registry with limiters := e.registry.limiters.setIfInBounds h.limiter v.bucket }
        world := out.elapse v.finish v.world })

/-- Answers one question. None when it has no answer, or a pass cannot be run to its end. -/
def answer : (q : Question) → Engine σ → Option (q.Answer × Engine σ)
  | .isLeader, e => some (out.isLeader e.world, e)
  | .now, e =>
    let (now, world) := out.now e.world
    some (now, { e with world })
  | .lastPass uid, e => some (e.passes.get? uid, e)
  | .remember uid record, e => some ((), { e with passes := e.passes.insert uid record })
  | .forget uid, e => some ((), { e with passes := e.passes.erase uid })
  | .forgetOthers live, e => some ((), { e with passes := e.passes.filter fun uid _ => live.contains uid })
  | .state uid, e => some (e.registry.state uid, e)
  | .setState uid s, e => some ((), { e with registry := e.registry.setState uid s })
  | .ensure uid target rate, e =>
    let ((result, registry), world) :=
      e.registry.ensure out.openWatch uid target (.ofInt rate) (e.moment out) e.world
    some (result, { e with registry, world })
  | .handles uid, e => some (e.registry.handles? uid, e)
  | .remove uid, e =>
    let (held, registry) := e.registry.remove uid
    some (held, { e with registry })
  | .prune live, e =>
    let (removed, registry) := e.registry.prune live
    some (removed, { e with registry })
  | .snapshot h, e => some (out.snapshot h.watch h.target e.world, e)
  | .evaluate p h, e => e.evaluate out c p h
  | .notify ref notice, e => some ((), { e with world := out.notify ref notice e.world })
  | .writeStatus ref status, e => some ((), { e with world := out.writeStatus ref status e.world })
  | .patch ns name operations, e =>
    let (result, world) := out.patch ns name operations e.world
    some (result, { e with world })
  | .halt, _ => none

/-- Runs a program without interruption. -/
def run {α : Type} (p : Reconciling α) (e : Engine σ) : Option (α × Engine σ) := Program.run (answer out c) p e

def apply (p : Policy) (e : Engine σ) : Option (Except ServeError Visit × Engine σ) :=
  e.run out c (Reconciling.apply c p)

/-- Lets go of all that is held for a policy. -/
def teardown (uid : String) (e : Engine σ) : Bool × Engine σ :=
  let (held, registry) := e.registry.remove uid
  (held, { e with registry, passes := e.passes.erase uid })

/-- Lets go of all policies that are not among the living. -/
def prune (live : List String) (e : Engine σ) : List String × Engine σ :=
  let (removed, registry) := e.registry.prune live
  (removed, { e with registry, passes := e.passes.filter fun uid _ => live.contains uid })

/-- Running the program of a teardown is the teardown. -/
theorem run_teardown (uid : String) (e : Engine σ) :
    e.run out c (Reconciling.teardown uid) = some (e.teardown uid) := rfl

/-- Running the program of pruning is pruning. -/
theorem run_prune (live : List String) (e : Engine σ) :
    e.run out c (Reconciling.prune live) = some (e.prune live) := rfl

def reconcile (p : Policy) (e : Engine σ) : Option (Except ServeError Requeue × Engine σ) :=
  e.run out c (Reconciling.reconcile c p)

end Engine

end Reaper
