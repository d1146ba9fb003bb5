import Reaper.Api.Journal
import Reaper.Informer.Opening
import Reaper.Reconciler.Thread

/-!
The cluster as a reconciler sees it: everything goes through the API server.

Watches are informers, notices are published in a journal, and every deletion, status and patch is a request. What is
reported on the side, notices and statuses, may fail without effect on anything else.
-/

namespace Reaper

/-- A cluster behind a server with a state. -/
structure Cluster (σ : Type) where
  remote : σ
  isLeader : Bool := true
  /-- the time of day -/
  time : Instant
  clock : Millis := 0
  reporter : Api.Reporter := {}
  journal : Api.Journal := []
  /-- the informers of all watches, in the order in which they were opened -/
  informers : Array (WatchTarget × Informer Resource) := #[]
  /-- when all watches are to be stopped -/
  stopAt : Option Millis := none

namespace Cluster

variable {σ : Type} (server : Api.Server σ)

/-- The fault of a call to which there is never a reply. -/
def noReply : Fault := .service "no reply"

def call {α : Type} (p : Api.Exchange (Except Fault α)) (w : Cluster σ) : Except Fault α × Cluster σ :=
  let (result, remote) := server.run p w.remote
  (result.getD (.error noReply), { w with remote })

def publish (ref : PolicyRef) (n : Notice) (w : Cluster σ) : Cluster σ :=
  let (result, remote) := server.run (w.journal.publish w.reporter ref n w.time) w.remote
  { w with remote, journal := (result.map (·.2)).getD w.journal }

/-- Lets one informer take its next step. -/
def followInformer (i : Nat) (now : Millis) (w : Cluster σ) : Cluster σ :=
  match w.informers[i]? with
  | none => w
  | some (t, m) =>
    let ((m, _), remote) := m.step .resources server t.collection (.ofTarget t) now w.remote
    { w with remote, informers := w.informers.setIfInBounds i (t, m) }

/-- What a watch knows of. -/
def snapshot (watch : Nat) (w : Cluster σ) : List Resource := ((w.informers[watch]?).map (·.2.items)).getD []

/-- How the deletions of a policy's pass are answered: a reply comes after all that is ready. -/
def backend (p : Policy) (t : WatchTarget) : DeleteBackend (Cluster σ) :=
  .reporting
    (fun w _ d =>
      let (reply, w) := w.call server (Api.deleteOfTarget t d)
      ((reply, some .zero), w))
    (publish server) p

/-- What a cluster answers at any time. -/
def supply (w : Cluster σ) : Supply := { isLeader := w.isLeader, now := w.time, moment := w.clock.moment }

/-- Answers a question that no task and no pass has to answer. -/
def answer (w : Cluster σ) : Question → Supply × Cluster σ
  | .snapshot h => ({ w.supply with snapshot := w.snapshot h.watch }, w)
  | .notify ref notice => (w.supply, w.publish server ref notice)
  | .writeStatus ref status => (w.supply, (w.call server (Api.writeStatus ref status)).2)
  | .patch ns name operations =>
    let (patched, w) := w.call server (Api.patchPolicy ns name operations)
    ({ w.supply with patched }, w)
  | _ => (w.supply, w)

end Cluster

end Reaper
