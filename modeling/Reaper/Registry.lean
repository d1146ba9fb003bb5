import Reaper.Dictionary
import Reaper.ServeError

/-!
The registry: what is held for each policy that is served.

A policy has a slot with its watch, its limiter and its state. Slots, watches and limiters are kept in the order in
which they were made and are never taken back, so that a number stays a good name for each; the index says which slot
belongs to a policy now. A slot that was given up is marked retired before it leaves the index.

The first part has the steps that happen without interruption; the operations that follow put them together. Opening a
watch is left to an opener, which may fail.
-/

namespace Reaper

/-- The state of a policy that is served. -/
inductive PolicyState where
  | notTracked
  | active
  | paused
  | error
  deriving DecidableEq, Repr, Inhabited

def PolicyState.text : PolicyState → String
  | notTracked => "NotTracked"
  | active => "Active"
  | paused => "Paused"
  | error => "Error"

/-- A watch that was opened. -/
structure Watch where
  /-- the policy that it was opened for -/
  owner : String
  target : WatchTarget
  cancelled : Bool
  deriving DecidableEq, Repr, Inhabited

/-- What is held for a policy. The numbers name a watch and a limiter of the registry. -/
structure Slot where
  watch : Option Nat := none
  limiter : Option Nat := none
  state : PolicyState := .notTracked
  retired : Bool := false
  deriving DecidableEq, Repr, Inhabited

/-- Something is held in the slot. -/
def Slot.isHolding (s : Slot) : Bool := s.watch.isSome || s.limiter.isSome || s.state ≠ .notTracked

/-- What is held for all policies. -/
structure Registry where
  index : Dictionary Nat := {}
  slots : Array Slot := #[]
  watches : Array Watch := #[]
  limiters : Array Bucket := #[]
  /-- how often a watch was to be opened -/
  attempts : Nat := 0
  /-- all watches have been stopped from outside -/
  rootCancelled : Bool := false
  deriving Inhabited

/-- What was done to have a watch. -/
inductive EnsureOutcome where
  | created
  | reused
  | replaced
  deriving DecidableEq, Repr

/-- What a pass needs. -/
structure Handles where
  watch : Nat
  target : WatchTarget
  limiter : Nat
  deriving DecidableEq, Repr

/-- What has to be done before a slot has the watch that is asked for. -/
inductive WatchNeed where
  | nothing
  /-- open a watch, after stopping the one there is -/
  | opening (outcome : EnsureOutcome)
  deriving DecidableEq, Repr

namespace Registry

/-! ## Steps -/

def slot? (r : Registry) (uid : String) : Option Nat := r.index.get? uid

/-- The slot with a number. -/
def slotAt (r : Registry) (i : Nat) : Slot := r.slots[i]?.getD {}

def modifySlot (r : Registry) (i : Nat) (f : Slot → Slot) : Registry := { r with slots := r.slots.modify i f }

/-- The slot of a policy, a new one if it has none. -/
def slotFor (r : Registry) (uid : String) : Nat × Registry :=
  match r.slot? uid with
  | some i => (i, r)
  | none => (r.slots.size, { r with slots := r.slots.push {}, index := r.index.insert uid r.slots.size })

def watchOf? (r : Registry) (i : Nat) : Option Watch := (r.slotAt i).watch.bind (r.watches[·]?)

/-- The watch has been stopped, by itself or with all others. -/
def isStopped (r : Registry) (watch : Nat) : Bool :=
  r.rootCancelled || ((r.watches[watch]?).map (·.cancelled)).getD true

/-- What a slot needs to have a watch on a target. -/
def need (r : Registry) (i : Nat) (target : WatchTarget) : WatchNeed :=
  match r.watchOf? i with
  | some w => if w.target = target then .nothing else .opening .replaced
  | none => .opening .created

/-- Stops the watch of a slot, if it has one, and takes it out of the slot. -/
def stopWatch (r : Registry) (i : Nat) : Registry :=
  match (r.slotAt i).watch with
  | some w =>
    { r.modifySlot i ({ · with watch := none }) with
      watches := r.watches.modify w ({ · with cancelled := true }) }
  | none => r

/-- Puts a watch that has just been opened into a slot. -/
def addWatch (r : Registry) (i : Nat) (owner : String) (target : WatchTarget) (cancelled : Bool) : Registry :=
  { r.modifySlot i ({ · with watch := some r.watches.size }) with
    watches := r.watches.push { owner, target, cancelled } }

/-- Counts an attempt to open a watch. -/
def countAttempt (r : Registry) : Registry := { r with attempts := r.attempts + 1 }

/-- Brings the limiter of a slot to a rate, with a new limiter if it has none. -/
def setRate (r : Registry) (i : Nat) (rate : Binary64) (now : Duration) : Except LimiterError Unit × Registry :=
  match Bucket.rate? rate with
  | .error e => (.error e, r)
  | .ok q =>
    match (r.slotAt i).limiter with
    | some l => (.ok (), { r with limiters := r.limiters.modify l (Bucket.setRate Rounding.nearest now q) })
    | none =>
      (.ok (),
        { r.modifySlot i ({ · with limiter := some r.limiters.size }) with
          limiters := r.limiters.push (Bucket.full q now) })

/-- The last part of having a watch: the rate. -/
def finishEnsure (r : Registry) (i : Nat) (rate : Binary64) (now : Duration) (outcome : EnsureOutcome) :
    Except ServeError EnsureOutcome × Registry :=
  match r.setRate i rate now with
  | (.ok (), r) => (.ok outcome, r)
  | (.error e, r) => (.error (.limiter e), r)

/-- Gives a slot up: it holds nothing any more and leaves the index. -/
def retire (r : Registry) (uid : String) (i : Nat) : Registry :=
  let r := r.modifySlot i fun s => { s with limiter := none, state := .notTracked, retired := true }
  if r.slot? uid = some i then { r with index := r.index.erase uid } else r

/-- What a pass needs, if the slot has both a watch and a limiter. -/
def handlesAt (r : Registry) (i : Nat) : Option Handles := do
  let s := r.slotAt i
  let watch ← s.watch
  let limiter ← s.limiter
  let target := (← r.watches[watch]?).target
  some { watch, target, limiter }

/-! ## Operations -/

/-- Makes sure that a policy has a watch on a target and a limiter at a rate. A watch on another target is stopped
before the new one is opened. The opener tells whether the new watch was stopped right away. -/
def ensure {σ : Type} (openWatch : WatchTarget → σ → Except WatchError Bool × σ) (uid : String) (target : WatchTarget)
    (rate : Binary64) (now : Duration) (r : Registry) (world : σ) :
    (Except ServeError EnsureOutcome × Registry) × σ :=
  let (i, r) := r.slotFor uid
  match r.need i target with
  | .nothing => (r.finishEnsure i rate now .reused, world)
  | .opening outcome =>
    let r := (r.stopWatch i).countAttempt
    match openWatch target world with
    | (.error e, world) => ((.error (.watch e), r), world)
    | (.ok cancelled, world) => ((r.addWatch i uid target cancelled).finishEnsure i rate now outcome, world)

/-- What a pass of a policy needs. -/
def handles? (r : Registry) (uid : String) : Option Handles := (r.slot? uid).bind r.handlesAt

/-- Stops and forgets all that is held for a policy. Tells whether there was anything. -/
def remove (r : Registry) (uid : String) : Bool × Registry :=
  match r.slot? uid with
  | none => (false, r)
  | some i => ((r.slotAt i).isHolding, (r.stopWatch i).retire uid i)

/-- Removes several policies, and tells which of them held anything. -/
def removeAll (r : Registry) : List String → List String × Registry
  | [] => ([], r)
  | uid :: rest =>
    let (held, r) := r.remove uid
    let (removed, r) := removeAll r rest
    (if held then uid :: removed else removed, r)

/-- The policies with a slot that are not among the living. -/
def stale (r : Registry) (live : List String) : List String := r.index.keys.filter fun uid => !live.contains uid

/-- Removes every policy that is not among the living. -/
def prune (r : Registry) (live : List String) : List String × Registry := r.removeAll (r.stale live)

def shutdown (r : Registry) : Registry := (r.prune []).2

def state (r : Registry) (uid : String) : PolicyState :=
  match r.slot? uid with
  | some i => (r.slotAt i).state
  | none => .notTracked

/-- Changes the state of a policy. One that is not tracked is removed. -/
def setState (r : Registry) (uid : String) (s : PolicyState) : Registry :=
  if s = .notTracked then (r.remove uid).2
  else
    let (i, r) := r.slotFor uid
    r.modifySlot i ({ · with state := s })

/-- What the watch of a policy is on. -/
def target? (r : Registry) (uid : String) : Option WatchTarget :=
  ((r.slot? uid).bind r.watchOf?).map (·.target)

/-- The number of policies with a slot. -/
def size (r : Registry) : Nat := r.index.size

end Registry

end Reaper
