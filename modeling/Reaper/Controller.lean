import Reaper.Controller.Job

/-!
The controller: policies are followed, and each is reconciled when it changes and when its time has come.

The controller follows the policies of a namespace or of all. A policy that appears or changes is visited at once, and
each visit says when the next one is due; of two visits of one policy the earlier is kept. From the first complete list
on, policies that have vanished are let go of at regular intervals. Visits and the letting go are threads that run side
by side, but for one policy there is one visit at a time. `Controller.runFrom` does what is due first, again and again;
at the end of a run all watches are stopped, and the visits that have begun are brought to their end.
-/

namespace Reaper

def ObjectKind.policies : ObjectKind Policy := ⟨Policy.decode?, (·.metadata)⟩

/-- A running controller. -/
structure Controller (σ : Type) where
  world : Cluster σ
  /-- the threads, with what a visit says about the next one -/
  work : ReconcilerRun (Option (Except ServeError Requeue)) := {}
  /-- what the threads are for -/
  jobs : Array Job := #[]
  policies : Informer Policy
  /-- when policies are to be visited, each at most once -/
  agenda : List (PolicyKey × Millis) := []
  /-- when vanished policies are to be let go of -/
  nextPrune : Option Millis := none

/-- What a controller does. -/
inductive ControllerTask where
  /-- lets a thread go on -/
  | goOn (thread : Nat)
  /-- takes a step of the informer of the policies -/
  | followPolicies
  /-- takes a step of the informer of a watch -/
  | followWatch (watch : Nat)
  | prune
  | visit (key : PolicyKey)
  deriving DecidableEq, Repr

namespace Controller

/-- An agenda with a visit; an earlier one of the same policy stands. -/
def schedule (key : PolicyKey) (at' : Millis) (agenda : List (PolicyKey × Millis)) : List (PolicyKey × Millis) :=
  match agenda.lookup key with
  | none => agenda ++ [(key, at')]
  | some t => if t ≤ at' then agenda else agenda.filter (·.1 ≠ key) ++ [(key, at')]

variable {σ : Type} (server : Api.Server σ) (c : Settings)

def start (w : Cluster σ) : Controller σ :=
  { world := w, policies := { Informer.start w.clock with isTrusting := false } }

/-- The running clock. -/
def clock (s : Controller σ) : Millis := s.world.clock

def collection : Api.Collection := .policies c.watchNamespace

/-! ## What is to be done -/

/-- What thread `i` waits for. -/
def activity (s : Controller σ) (i : Nat) : Activity := ((s.jobs[i]?).map (·.activity)).getD .none

/-- The watch has been stopped, by itself or with all others. -/
def isStopped (s : Controller σ) (watch : Nat) : Bool :=
  s.work.registry.isStopped watch || Retry.cancelledBy s.world.stopAt s.clock

/-- When thread `i` goes on; none if it waits for a slot that another thread is at work on. -/
def wake? (s : Controller σ) (i : Nat) : Option Millis :=
  match s.activity i with
  | .opening o => some (o.wake s.clock)
  | .passing o =>
    if s.work.registry.isStopped o.handles.watch && !o.schedule.pass.cancelled then some s.clock else o.wake? s.clock
  | .none =>
    match (s.work.threads[i]?).bind Thread.task? with
    | some { point := .queued slot, .. } => if s.work.isFree i slot then some s.clock else none
    | _ => some s.clock

/-- The threads that can go on. -/
def threadTasks (s : Controller σ) : List (Millis × ControllerTask) :=
  (List.range s.jobs.size).filterMap fun i => (s.wake? i).map (·, .goOn i)

/-- The tasks of the watches that have not been stopped. -/
def watchTasks (s : Controller σ) : List (Millis × ControllerTask) :=
  (List.range s.world.informers.size).filterMap fun i =>
    if s.work.registry.isStopped i then none
    else ((s.world.informers[i]?).bind (·.2.wake)).map (·, .followWatch i)

/-- A job for a policy, or for those that have vanished, is under way. -/
def isBusy (s : Controller σ) (key : Option PolicyKey) : Bool := s.jobs.any (·.key = key)

/-- Another policy may be visited. -/
def hasRoom (s : Controller σ) : Bool :=
  c.maxConcurrentEvaluations = 0 || s.jobs.countP (·.key.isSome) < c.maxConcurrentEvaluations

/-- Policies are visited and pruned only when all are known. -/
def visitTasks (s : Controller σ) : List (Millis × ControllerTask) :=
  let visits := if s.policies.ready && s.hasRoom c then s.agenda.filter fun (key, _) => !s.isBusy (some key) else []
  visits.map fun (key, t) => (t, .visit key)

def pruneTasks (s : Controller σ) : List (Millis × ControllerTask) :=
  if s.policies.ready && !s.isBusy none then (s.nextPrune.map (·, ControllerTask.prune)).toList else []

/-- All that is to be done. Of what is due at one time, visits come before any further message is taken. -/
def tasks (s : Controller σ) : List (Millis × ControllerTask) :=
  let follow := (s.policies.wake.map (·, ControllerTask.followPolicies)).toList ++ s.watchTasks
  s.threadTasks ++ s.visitTasks c ++ follow ++ s.pruneTasks

/-- The first of several tasks that is due first. -/
def earliest : List (Millis × ControllerTask) → Option (Millis × ControllerTask)
  | [] => none
  | task :: rest =>
    match earliest rest with
    | none => some task
    | some other => some (if other.1 < task.1 then other else task)

/-- What is done next: what is due first, or after a time only what has been begun. -/
def next? (limit : Millis) (s : Controller σ) : Option (Millis × ControllerTask) :=
  match earliest (s.tasks c) with
  | none => none
  | some (t, task) => if limit < t then earliest s.threadTasks else some (t, task)

/-- Lets the clock go on to a time, if it has not passed it. -/
def reach (t : Millis) (s : Controller σ) : Controller σ :=
  { s with world := { s.world with clock := max s.clock t } }

/-! ## Threads -/

/-- Begins a thread. -/
def begin (key : Option PolicyKey) (p : Reconciling (Option (Except ServeError Requeue))) (s : Controller σ) :
    Controller σ :=
  { s with work := { s.work with threads := s.work.threads.push (.asking p) }, jobs := s.jobs.push { key } }

/-- Thread `i` waits for something. -/
def await (i : Nat) (activity : Activity) (s : Controller σ) : Controller σ :=
  { s with jobs := s.jobs.modify i ({ · with activity }) }

/-- Thread `i` goes on with what the world answers. -/
def goOn (i : Nat) (supply : Supply) (s : Controller σ) : Controller σ :=
  { s with work := s.work.step i supply }.await i .none

/-- When a visit that ended in some way is followed by another. -/
def followUp (now : Millis) (r : Except ServeError Requeue) : Option Millis :=
  let requeue := match r with
    | .ok requeue => requeue
    | .error _ => Reconciling.requeueAfterError c
  match requeue with
  | .after d => some (now.after d)
  | .onChange => none

/-- Ends thread `i`, and arranges the next visit of its policy. -/
def finish (i : Nat) (result : Option (Except ServeError Requeue)) (s : Controller σ) : Controller σ :=
  let key := (s.jobs[i]?).bind (·.key)
  let agenda := match key, result.bind (followUp c s.clock) with
    | some key, some t => schedule key t s.agenda
    | _, _ => s.agenda
  { s with
    work := { s.work with threads := s.work.threads.eraseIdxIfInBounds i }
    jobs := s.jobs.eraseIdxIfInBounds i
    agenda }

/-- The watch that thread `i` opens is there, or it cannot be opened. -/
def opened (i : Nat) (target : WatchTarget) (result : Except WatchError (Informer Resource)) (s : Controller σ) :
    Controller σ :=
  match result with
  | .ok m =>
    { s with world := { s.world with informers := s.world.informers.push (target, m) } }.goOn i
      { s.world.supply with watch := .ok false }
  | .error e => s.goOn i { s.world.supply with watch := .error e }

/-- Goes on with opening a watch. -/
def openTurn (i : Nat) (target : WatchTarget) (s : Controller σ) : Controller σ :=
  match s.activity i with
  | .opening o =>
    let (o, remote) := o.step server s.clock s.world.remote
    let s := { s with world := { s.world with remote } }
    match o with
    | .ok o => s.await i (.opening o)
    | .error result => s.opened i target result
  | _ =>
    let (o, remote) := Opening.begin server target c.readyTimeout s.world.stopAt s.clock s.world.remote
    let s := { s with world := { s.world with remote } }
    match o with
    | .ok o => s.await i (.opening o)
    | .error e => s.opened i target (.error e)

/-- Goes on with a pass. None when a deletion would have to wait longer than any duration. -/
def passTurn (i : Nat) (p : Policy) (h : Handles) (s : Controller σ) : Option (Controller σ) :=
  match s.activity i with
  | .passing o =>
    let isCut : Bool := s.work.registry.isStopped h.watch && !o.schedule.pass.cancelled
    let o := if isCut then o.cancel s.clock else o
    if o.schedule.pass.isStranded then none
    else if o.schedule.pass.isSettled then
      some (s.goOn i { s.world.supply with result := o.result, bucket := o.schedule.pass.bucket })
    else
      ((o.schedule.inWorld s.world).step? o.plan (Cluster.backend server p h.target)).map fun v =>
        { s with world := v.world }.await i (.passing { o with schedule := v.inWorld () })
  | _ =>
    let bucket := (s.work.registry.limiters[h.limiter]?).getD default
    some <|
      if s.isStopped h.watch then s.goOn i { s.world.supply with result := { cancelled := true }, bucket }
      else
        s.await i (.passing
          (.begin (c.evaluator fun _ _ => 0) p h s.world.time (s.world.snapshot h.watch) bucket s.clock s.world.stopAt))

/-- Lets thread `i` go on. None when it cannot be done. -/
def turn (i : Nat) (s : Controller σ) : Option (Controller σ) :=
  match s.work.threads[i]? with
  | none => some s
  | some (.asking (Program.done result)) => some (s.finish c i result)
  | some (.asking (Program.ask q _)) =>
    match q with
    | .halt => none
    | .evaluate p h => s.passTurn server c i p h
    | q =>
      let (supply, world) := s.world.answer server q
      some ({ s with world }.goOn i supply)
  | some (.working task _) =>
    match task.point, task.goal with
    | .opening .., .ensure target _ => some (s.openTurn server c i target)
    | _, _ => some (s.goOn i s.world.supply)

/-! ## The run -/

/-- Visits a policy, unless it has vanished. -/
def visit (key : PolicyKey) (s : Controller σ) : Controller σ :=
  let s := { s with agenda := s.agenda.filter (·.1 ≠ key) }
  match s.policies.items.find? (·.key = key) with
  | none => s
  | some p => s.begin (some key) (do return some (← Reconciling.reconcile c p))

/-- Arranges a visit of a policy, which is due at once. -/
def arrange (key : PolicyKey) (s : Controller σ) : Controller σ := { s with agenda := schedule key s.clock s.agenda }

/-- Takes note of a policy that a list names once more. Its visit does not wait for the end of the list, unless another
one is in its way: the policy is looked up in the copy as it was before, and if it is not there it is not visited. -/
def comeUpon (key : PolicyKey) (s : Controller σ) : Controller σ :=
  let s := s.arrange key
  if s.hasRoom c && !s.isBusy (some key) then s.visit c key else s

/-- Takes a step of the informer of the policies, and arranges visits of those that have changed. None when the informer
dies. -/
def followPolicies (s : Controller σ) : Option (Controller σ) :=
  let ((policies, seen), remote) :=
    s.policies.step .policies server (collection c) {} s.clock s.world.remote
  let s := { s with world := { s.world with remote } }
  let listsAgain : Bool := s.policies.ready && s.policies.isListing
  let becomesReady : Bool := policies.ready && !s.policies.ready && c.gcIntervalSeconds ≠ 0
  let s := seen.foldl (fun s p => if listsAgain then s.comeUpon c p.key else s.arrange p.key) s
  if policies.died then none
  else some { s with policies, nextPrune := if becomesReady then some s.clock else s.nextPrune }

/-- Lets go of the policies that have vanished. -/
def pruneVanished (s : Controller σ) : Controller σ :=
  let live := s.policies.items.filterMap (·.metadata.uid)
  { s with nextPrune := s.nextPrune.map (Millis.after · c.gcInterval) }.begin none do
    discard (Reconciling.prune live)
    return none

/-- Does a task. None when it cannot be done. -/
def perform (s : Controller σ) : ControllerTask → Option (Controller σ)
  | .goOn i => s.turn server c i
  | .followPolicies => s.followPolicies server c
  | .followWatch i => some { s with world := s.world.followInformer server i s.clock }
  | .prune => some (s.pruneVanished c)
  | .visit key => some (s.visit c key)

/-- Does all that is due before a time. None when something cannot be done. `fuel` bounds the number of tasks. -/
def runFrom (limit : Millis) : (fuel : Nat) → Controller σ → Option (Controller σ)
  | 0, s => some s
  | fuel + 1, s =>
    match s.next? c limit with
    | none => some s
    | some (t, task) => ((s.reach t).perform server c task).bind (runFrom limit fuel)

/-- The number of tasks after which a controller is left alone. -/
def patience : Nat := 10000000

/-- Runs a controller in a cluster up to a time, at which all watches are stopped; the visits that have begun are brought
to their end. -/
def run (limit : Millis) (w : Cluster σ) : Option (Cluster σ) :=
  (runFrom server c limit patience (start { w with stopAt := some limit })).map (·.world)

end Controller

end Reaper
