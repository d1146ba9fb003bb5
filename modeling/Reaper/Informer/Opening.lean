import Reaper.Api.PolicyCalls
import Reaper.Informer
import Reaper.ServeError

/-!
Opening watches: an informer of a target that is ready in time.

A target that cannot be listed at all is found out by a first list of one object. Then the informer has a limited time
for its first complete list, and before that it may die or be stopped.
-/

namespace Reaper

namespace WatchTarget

def collection (t : WatchTarget) : Api.Collection := .ofTarget t t.namespace

end WatchTarget

namespace Informer

variable {σ : Type} (server : Api.Server σ)

/-- Lets the informer of a target do what is due up to a time. -/
def follow (t : WatchTarget) (limit : Millis) (m : Informer Resource) (world : σ) : Informer Resource × σ :=
  let ((m, _), world) :=
    m.advance .resources server t.collection (.ofTarget t) limit (fun _ => false) patience 0 world
  (m, world)

end Informer

/-- A watch that is being opened. -/
structure Opening where
  target : WatchTarget
  informer : Informer Resource
  /-- how long the informer has to get ready -/
  timeout : Duration
  /-- when that time is over -/
  deadline : Millis
  /-- when the informer is given up: at the deadline, or when all watches are stopped before -/
  limit : Millis

namespace Opening

variable {σ : Type} (server : Api.Server σ)

/-- Begins to open a watch, after a first list of one object. -/
def begin (t : WatchTarget) (timeout : Duration) (stopAt : Option Millis) (now : Millis) (world : σ) :
    Except WatchError Opening × σ :=
  match server.run (Api.listTarget t (some 1)) world with
  | (none, world) => (.error (.stopped t.label), world)
  | (some (.error fault), world) => (.error (.refused t.label fault), world)
  | (some (.ok _), world) =>
    let deadline := now.after timeout
    (.ok
      { target := t, informer := .start now, timeout, deadline
        limit := min deadline (max now (stopAt.getD deadline)) }, world)

/-- The informer has got ready, or never will. -/
def isDecided (o : Opening) : Bool := o.informer.ready || o.informer.died

/-- When the opening goes on. -/
def wake (now : Millis) (o : Opening) : Millis :=
  if o.isDecided && now < o.limit then now else min ((o.informer.wake.filter fun _ => !o.isDecided).getD o.limit) o.limit

/-- Goes on with an opening, or ends it with an informer that is ready or a failure. -/
def step (now : Millis) (o : Opening) (world : σ) : Except (Except WatchError (Informer Resource)) Opening × σ :=
  if o.isDecided && now < o.limit then
    (.error (if o.informer.ready then .ok o.informer else .error (.stopped o.target.label)), world)
  else if !o.isDecided && o.informer.wake.any (· ≤ now) then
    let ((informer, _), world) :=
      o.informer.step .resources server o.target.collection (.ofTarget o.target) now world
    (.ok { o with informer }, world)
  else
    (.error (.error
      (if o.limit < o.deadline then .stopped o.target.label else .notReady o.target.label o.timeout)), world)

/-- Brings an opening to its end. Gives the time of the end. `fuel` bounds the number of steps. -/
def runFrom (o : Opening) : (fuel : Nat) → Millis → σ → (Except WatchError (Informer Resource) × Millis) × σ
  | 0, now, world => ((.error (.notReady o.target.label o.timeout), now), world)
  | fuel + 1, now, world =>
    let now := max now (o.wake now)
    match o.step server now world with
    | (.error result, world) => ((result, now), world)
    | (.ok o, world) => o.runFrom fuel now world

end Opening

/-- Opens an informer of a target. Gives the time at which it is ready or has been given up. -/
def Informer.openOn {σ : Type} (server : Api.Server σ) (t : WatchTarget) (timeout : Duration) (stopAt : Option Millis)
    (now : Millis) (world : σ) : (Except WatchError (Informer Resource) × Millis) × σ :=
  match Opening.begin server t timeout stopAt now world with
  | (.error e, world) => ((.error e, now), world)
  | (.ok o, world) => o.runFrom server patience now world

end Reaper
