import Reaper.Api.PolicyCalls
import Reaper.Api.Script
import Reaper.Reconciler.Engine

/-!
Rehearsals: worlds that are laid down beforehand.

In a rehearsal the replies to deletions, the resources that watches know of, and what goes wrong are given in advance,
and what the controller does is noted down.
-/

namespace Reaper

/-- The reply after `used` others: the next in line, the last one for ever, and success if there are none. -/
def Reply.at (replies : List Reply) (used : Nat) : Reply :=
  (replies[min used (replies.length - 1)]?).getD (.ok ())

/-- The replies to deletions by the name of the resource. -/
structure DeletionScript where
  replies : List (String × List Reply) := []
  /-- how long each reply takes; none if it is there at once -/
  latency : Option Duration := none
  used : List (String × Nat) := []

def DeletionScript.reply (s : DeletionScript) (name : String) : Reply × DeletionScript :=
  let n := (s.used.lookup name).getD 0
  (Reply.at ((s.replies.lookup name).getD []) n, { s with used := (name, n + 1) :: s.used.filter (·.1 ≠ name) })

/-- A world laid down beforehand, and the notes on what was done in it, the last one first. -/
structure Rehearsal where
  isLeader : Bool := true
  now : Instant := ⟨0, 0⟩
  clock : Millis := 0
  /-- when all watches are stopped -/
  cancelAt : Option Millis := none
  deletions : DeletionScript := {}
  /-- why a watch cannot be opened -/
  refusal : WatchTarget → Option WatchError := fun _ => none
  /-- watches are stopped as soon as they are opened -/
  stillborn : Bool := false
  /-- writing the status fails -/
  failStatus : Bool := false
  /-- the resources that watches know of, by namespace -/
  caches : List (String × List Resource) := []
  server : Api.Script := ⟨[], []⟩
  calls : List (Millis × DeleteCall) := []
  notices : List (PolicyRef × Notice) := []
  statuses : List (PolicyRef × PolicyStatus) := []
  /-- the last status that was written without fail -/
  kept : Option PolicyStatus := none

namespace Rehearsal

/-- The resources that watches of a namespace know of. -/
def cache (w : Rehearsal) («namespace» : String) : List Resource := (w.caches.lookup «namespace»).getD []

/-- Adds to the resources that watches of a namespace know of. -/
def fill (w : Rehearsal) («namespace» : String) (resources : List Resource) : Rehearsal :=
  { w with caches := («namespace», w.cache «namespace» ++ resources) :: w.caches.filter (·.1 ≠ «namespace») }

def delete (w : Rehearsal) (now : Millis) (call : DeleteCall) : (Reply × Option Duration) × Rehearsal :=
  let (reply, deletions) := w.deletions.reply call.name
  ((reply, deletions.latency), { w with deletions, calls := (now, call) :: w.calls })

def notify (ref : PolicyRef) (n : Notice) (w : Rehearsal) : Rehearsal := { w with notices := (ref, n) :: w.notices }

def clearNotes (w : Rehearsal) : Rehearsal :=
  { w with calls := [], notices := [], statuses := [], server := { w.server with log := [] } }

/-- How a rehearsal answers a reconciler. A patch to which there is never a reply counts as failed. -/
def surroundings : Surroundings Rehearsal where
  isLeader := isLeader
  now w := (w.now, w)
  clock := clock
  elapse t w := { w with clock := t }
  cancelAt := cancelAt
  openWatch target w :=
    match w.refusal target with
    | some e => (.error e, w)
    | none => (.ok w.stillborn, w)
  snapshot _ target w := w.cache (target.namespace.getD WatchTarget.allNamespaces)
  delete _ w now call := w.delete now call
  notify := notify
  writeStatus ref s w :=
    { w with statuses := (ref, s) :: w.statuses, kept := if w.failStatus then w.kept else some s }
  patch ns name operations w :=
    let (result, server) := (Api.patchPolicy ns name operations).serve Api.Script.answer w.server
    (result.getD (.error (.service "no reply")), { w with server })
  word _ _ := 0

end Rehearsal

end Reaper
