import Reaper.Proofs.Evaluation.Calls
import Reaper.Proofs.Reconciler.Admission
import Reaper.Proofs.Registry.Steps
import Reaper.Reconciler.Engine
import Reaper.Rehearsal

/-!
What a visit of a policy may delete.

A visit makes a call when it comes to ask for a pass, and the pass comes to the call (`Deletes`), whether the visit ends
or not. `MayDelete` lists what has to be so for that, from the leadership of this replica down to the identity of the
resource, and `mayDelete_of_deletes` shows that it is so for every call, the first one for a resource or a later one.

  §1 Calls     — the calls of a visit.
  §2 Deletions — what they have in common.
-/

namespace Reaper.Engine

variable {σ : Type} (out : Surroundings σ) (c : Settings)

/-! ## §1 Calls -/

/-- The pass of a policy that an engine runs comes to make a call. -/
def PassMakes (e : Engine σ) (p : Policy) (h : Handles) (call : DeleteCall) : Prop :=
  let now := (out.now e.world).1
  let world := (out.now e.world).2
  (c.evaluator out.word).Makes (.reporting (out.delete h.target) out.notify p) p h.target now
    (out.snapshot h.watch h.target world) ((e.registry.limiters[h.limiter]?).getD default) (out.clock world)
    (e.cancelAt out h.watch) world call

/-- The calls of the pass that an engine runs, none if the pass does not end. -/
def passNotes (e : Engine σ) (p : Policy) (h : Handles) : List DeleteCall :=
  let now := (out.now e.world).1
  let world := (out.now e.world).2
  let backend := DeleteBackend.reporting (out.delete h.target) out.notify p
  (((c.evaluator out.word).evaluate backend.noting p h.target now (out.snapshot h.watch h.target world)
      ((e.registry.limiters[h.limiter]?).getD default) (out.clock world) (e.cancelAt out h.watch) (world, [])).map
    (·.world.2)).getD []

theorem passMakes_of_mem_passNotes {e : Engine σ} {p : Policy} {h : Handles} {call : DeleteCall}
    (hcall : call ∈ e.passNotes out c p h) : e.PassMakes out c p h call := by
  unfold passNotes at hcall
  dsimp only at hcall
  rcases hv : Evaluator.evaluate _ _ _ _ _ _ _ _ _ _ with _ | v <;> rw [hv] at hcall
  · cases hcall
  · exact Evaluator.makes_of_evaluate hv hcall

/-- A visit of a policy that begins at engine `e` comes to ask for a pass at engine `e'`, and the pass makes a call. -/
def Deletes (p : Policy) (e e' : Engine σ) (h : Handles) (call : DeleteCall) : Prop :=
  ∃ q, (.evaluate q h, e') ∈ (Reconciling.apply c p).asked (answer out c) e ∧ e'.PassMakes out c q h call

/-- The calls of the passes that a visit comes to ask for. -/
def visitNotes (p : Policy) (e : Engine σ) : List DeleteCall :=
  ((Reconciling.apply c p).asked (answer out c) e).flatMap fun
    | (.evaluate q h, e') => e'.passNotes out c q h
    | _ => []

/-- What is noted of a visit is made. -/
theorem exists_deletes_of_mem_visitNotes {p : Policy} {e : Engine σ} {call : DeleteCall}
    (hcall : call ∈ e.visitNotes out c p) : ∃ e' h, Deletes out c p e e' h call := by
  obtain ⟨⟨question, e'⟩, hasked, hnotes⟩ := List.mem_flatMap.mp hcall
  cases question with
  | evaluate q h => exact ⟨e', h, q, hasked, passMakes_of_mem_passNotes out c hnotes⟩
  | _ => cases hnotes

/-! ## §2 Deletions -/

/-- What has to be so for a call of a visit: who visits, the policy, its watch, and the resource. -/
structure MayDelete (p : Policy) (e e' : Engine σ) (h : Handles) (call : DeleteCall) : Prop where
  leads : out.isLeader e.world = true
  isActive : p.spec.paused = false
  isMeant : p.spec.behavior.dryRun = false ∧ c.dryRun = false
  resolves : WatchTarget.ofPolicy? p = some (.ok h.target)
  /-- the watch is what the registry holds for the policy -/
  isOwnWatch : ∃ ref, PolicyRef.ofPolicy p = .ok ref ∧ e'.registry.handles? ref.uid = some h
  /-- the resource is in the snapshot of the watch, and due at the only time of day that the pass reads -/
  isDue : ∃ r ∈ out.snapshot h.watch h.target (out.now e'.world).2,
    p.spec.covers h.target.namespace r r.document = true ∧ r.isPreserved = false ∧ r.isTerminating = false ∧
      (∃ instant, p.spec.ttl.check r r.document (out.now e'.world).1 = .expired instant) ∧
      call =
        { «namespace» := r.metadata.namespace
          name := r.name
          uid := r.metadata.uid
          propagation := some p.spec.behavior.propagationPolicy
          gracePeriodSeconds := p.spec.behavior.gracePeriodSeconds }

variable {out c} {p : Policy} {e e' : Engine σ} {h : Handles}

/-- The handles that are read right after a watch has been ensured are on its target. -/
theorem target_of_ensured {ref : PolicyRef} {target : WatchTarget}
    (hx : Reconciling.Admitted c p (answer out c) e ref target h e') :
    e'.registry.handles? ref.uid = some h ∧ h.target = target := by
  obtain ⟨e₁, e₂, outcome, hensure, hhandles⟩ := hx.ensured
  obtain ⟨hfound, rfl⟩ := Prod.mk.inj (Option.some.inj hhandles)
  refine ⟨hfound, ?_⟩
  simp only [answer, Option.some.injEq, Prod.mk.injEq] at hensure
  obtain ⟨hresult, rfl⟩ := hensure
  exact Registry.target_of_ensure (Prod.ext (Prod.ext hresult rfl) rfl) hfound

/-- Whatever the world outside does, a visit deletes only what may be deleted. -/
theorem mayDelete_of_deletes {call : DeleteCall} (hd : Deletes out c p e e' h call) :
    MayDelete out c p e e' h call := by
  obtain ⟨q, hasked, hmakes⟩ := hd
  obtain ⟨rfl, ref, target, hadmitted⟩ := Reconciling.admitted_of_mem_asked hasked
  obtain ⟨hhandles, rfl⟩ := target_of_ensured hadmitted
  obtain ⟨hpolicy, heverywhere, r, hr, hexpired, hcall⟩ := hmakes.exists_expired
  obtain ⟨hcovers, hpreserved, hterminating, hdue⟩ := PolicySpec.verdict_eq_expired_iff.mp hexpired
  exact
    { leads := by
        obtain ⟨e₁, hleads⟩ := hadmitted.leads
        exact congrArg Prod.fst (Option.some.inj hleads)
      isActive := hadmitted.isActive
      isMeant := ⟨hpolicy, heverywhere⟩
      resolves := hadmitted.resolves
      isOwnWatch := ⟨ref, hadmitted.isPolicy, hhandles⟩
      isDue := ⟨r, hr, hcovers, hpreserved, hterminating, hdue, hcall⟩ }

/-- A policy that deletes pods of a namespace an hour after their creation. -/
def hourly : Policy :=
  { metadata := { name := some "hourly", «namespace» := some "prod", uid := some "p-1", generation := some 1 }
    spec :=
      { targetResource := { apiVersion := "v1", kind := "Pod" }
        ttl := { secondsAfterCreation := some 3600 } }
    status := some { observedGeneration := some 1 } }

/-- Two hours after the beginning of time there is one pod, which has been there from the beginning. -/
def onePod : Engine Rehearsal where
  world :=
    { now := ⟨7200, 0⟩
      caches :=
        [("prod",
          [{ metadata :=
              { name := some "web-0", «namespace» := some "prod", uid := some "u-0"
                creationTimestamp := some ⟨0, 0⟩ } }])] }

def podDeletion : DeleteCall :=
  { «namespace» := some "prod", name := "web-0", uid := some "u-0", propagation := some .background }

theorem target_hourly :
    WatchTarget.ofPolicy? hourly = some (.ok
      { group := "", version := "v1", kind := "Pod", plural := "pods", «namespace» := some "prod"
        labelSelector := "", fieldSelector := "" }) := by
  simp only [WatchTarget.ofPolicy?, String.contains_char_eq]
  rfl

/-- A visit of the policy deletes the pod, as it may. -/
theorem mayDelete_podDeletion :
    ∃ e' h, Deletes Rehearsal.surroundings {} hourly onePod e' h podDeletion ∧
      MayDelete Rehearsal.surroundings {} hourly onePod e' h podDeletion := by
  have hnoted : podDeletion ∈ onePod.visitNotes Rehearsal.surroundings {} hourly := by
    unfold visitNotes Reconciling.apply Reconciling.visit
    rw [target_hourly]
    decide +kernel
  obtain ⟨e', h, hdeletes⟩ := exists_deletes_of_mem_visitNotes _ _ hnoted
  exact ⟨e', h, hdeletes, mayDelete_of_deletes hdeletes⟩

end Reaper.Engine
