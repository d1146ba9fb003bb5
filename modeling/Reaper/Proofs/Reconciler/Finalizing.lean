import Reaper.Proofs.Reconciler.Questions
import Reaper.Proofs.Registry.Holdings
import Reaper.Reconciler.Engine
import Reaper.Rehearsal

/-!
The finalizer protocol.

Reconciling a policy dispatches on leadership, on the finalizer and on the deletion mark. Only a policy that carries the
finalizer and is not being deleted is visited; one that is being deleted is let go of first and loses the finalizer
afterwards, and a replica that does not lead lets go of the policy and asks nothing of the world
(`finalizer_protocol`). Letting go twice is letting go once (`released_of_holdsNothing`), so a patch that fails can be
tried again and again.

  §1 Letting go — what is left of a policy that is let go of.
  §2 Dispatch   — what is asked, and what a run does, in each case.
  §3 Protocol   — the protocol, and its repetition.
-/

namespace Reaper

/-! ## §1 Letting go -/

theorem Dictionary.erase_of_get?_none {α : Type} {d : Dictionary α} {k : String} (h : d.get? k = none) :
    d.erase k = d := by
  have hkeys : ∀ e ∈ d.entries, e.1 ≠ k := by
    rintro e he rfl
    exact Dictionary.get?_eq_none_iff.mp h (List.mem_map_of_mem he)
  apply Dictionary.ext
  simpa [Dictionary.erase] using hkeys

namespace Engine

variable {σ : Type} {out : Surroundings σ} {c : Settings} {p : Policy} {e : Engine σ} {uid : String}

/-- Nothing is held for a policy: it has no slot, and so neither a limiter nor a state, no watch of it is open, and no
pass of it is remembered. -/
structure HoldsNothing (e : Engine σ) (uid : String) : Prop where
  holding : e.registry.holding? uid = none
  watch : ∀ w, ¬ e.registry.IsLive uid w
  pass : e.passes.get? uid = none

/-- What is held does not depend on the world. -/
theorem HoldsNothing.of_world (h : e.HoldsNothing uid) (world : σ) :
    ({ e with world } : Engine σ).HoldsNothing uid :=
  ⟨h.holding, h.watch, h.pass⟩

/-- An engine that has let go of a policy; a policy without an identity has nothing to let go of. -/
def released (e : Engine σ) (p : Policy) : Engine σ :=
  match p.metadata.uid with
  | some uid => (e.teardown uid).2
  | none => e

@[simp] theorem world_released (e : Engine σ) (p : Policy) : (e.released p).world = e.world := by
  unfold released
  split <;> rfl

theorem holdsNothing_released {P : Bool → Prop} (h : e.registry.Sound P) (huid : p.metadata.uid = some uid) :
    (e.released p).HoldsNothing uid := by
  have hslot : (e.registry.remove uid).2.slot? uid = none := by rw [Registry.slot?_remove, if_pos rfl]
  simp only [released, huid]
  exact
    { holding := Registry.holding?_eq_none_iff.mpr hslot
      watch := (h.remove uid).not_isLive_of_none hslot
      pass := by
        show (e.passes.erase uid).get? uid = none
        simp [Dictionary.get?_erase] }

/-- Letting go of what is not held changes nothing. -/
theorem released_of_holdsNothing (h : ∀ uid ∈ p.metadata.uid, e.HoldsNothing uid) : e.released p = e := by
  unfold released
  split
  · rename_i uid huid
    have hnone := h uid huid
    have hslot := Registry.holding?_eq_none_iff.mp hnone.holding
    simp [teardown, Registry.remove_of_none hslot, Dictionary.erase_of_get?_none hnone.pass]
  · rfl

end Engine

/-! ## §2 Dispatch -/

/-- A question by which a policy is let go of, or that asks whether to. -/
def Question.IsRelease : Question → Prop
  | isLeader | forget _ | remove _ => True
  | _ => False

/-- A question that is no part of a visit: the finalizers may be patched. -/
def Question.IsUpkeep (q : Question) : Prop := q.IsRelease ∨ ∃ ns name operations, q = .patch ns name operations

/-- The policy carries the finalizer and is not being deleted. -/
def Policy.IsServed (p : Policy) : Prop := Policy.finalizer ∈ p.finalizers ∧ p.isTerminating = false

/-- What comes of a patch: once it is done the policy will be seen to change. -/
def patched : Except Fault Unit → Except ServeError Requeue
  | .error fault => .error (.api fault)
  | .ok () => .ok .onChange

namespace Reconciling

open Program (AsksOnly)

variable (c : Settings) (p : Policy)

theorem reconcile_eq :
    reconcile c p = Program.ask .isLeader fun leads =>
      if leads then p.metadata.namespace.elim (.done (.error (.missingKey ".metadata.namespace"))) (finalize c p)
      else (release p).bind fun _ => .done (.ok (.after c.followerRequeue)) := by
  unfold reconcile
  refine congrArg (Program.ask Question.isLeader) (funext fun leads => ?_)
  cases leads with
  | false => rfl
  | true => cases p.metadata.namespace <;> rfl

theorem finalize_served (h : p.IsServed) (ns : String) :
    finalize c p ns = (apply c p).bind fun v => .done (v.map fun v => .after v.requeueAfter) := by
  obtain ⟨i, hi⟩ := Option.isSome_iff_exists.mp (List.isSome_idxOf?.mpr h.1)
  simp only [finalize, hi, h.2]
  rfl

variable {p}

/-- A policy that is being deleted is let go of before it loses the finalizer. -/
theorem finalize_terminating {i : Nat} (hi : p.finalizers.idxOf? Policy.finalizer = some i)
    (ht : p.isTerminating = true) (ns : String) :
    finalize c p ns = p.metadata.name.elim (.done (.error (.missingKey ".metadata.name"))) fun name =>
      (release p).bind fun _ => Program.ask (.patch ns name (Policy.removeFinalizer i)) fun r => .done (patched r) := by
  simp only [finalize, hi, ht]
  cases p.metadata.name with
  | none => rfl
  | some name =>
    refine congrArg (Program.bind _) (funext fun _ => congrArg (Program.ask _) (funext fun r => ?_))
    cases r <;> rfl

theorem finalize_adding (hi : p.finalizers.idxOf? Policy.finalizer = none) (ht : p.isTerminating = false) (ns : String) :
    finalize c p ns = p.metadata.name.elim (.done (.error (.missingKey ".metadata.name"))) fun name =>
      Program.ask (.patch ns name p.addFinalizer) fun r => .done (patched r) := by
  simp only [finalize, hi, ht]
  cases p.metadata.name with
  | none => rfl
  | some name =>
    refine congrArg (Program.ask _) (funext fun r => ?_)
    cases r <;> rfl

theorem finalize_gone (hi : p.finalizers.idxOf? Policy.finalizer = none) (ht : p.isTerminating = true) (ns : String) :
    finalize c p ns = .done (.ok .onChange) := by
  simp only [finalize, hi, ht]
  rfl

theorem asksOnly_release (p : Policy) : AsksOnly Question.IsRelease (release p) := by
  unfold release
  split
  · exact .bind (.bind (asksOnly_ask trivial) fun _ => asksOnly_ask trivial) fun _ => .pure ()
  · exact .pure ()

/-- A policy that is not served is not visited. -/
theorem asksOnly_finalize (h : ¬ p.IsServed) (ns : String) : AsksOnly Question.IsUpkeep (finalize c p ns) := by
  have hpatch (name : String) (operations : Json) :
      AsksOnly Question.IsUpkeep (ask (.patch ns name operations) >>= fun r => pure (patched r)) :=
    ⟨.inr ⟨ns, name, operations, rfl⟩, fun _ => trivial⟩
  cases hi : p.finalizers.idxOf? Policy.finalizer with
  | none =>
    cases ht : p.isTerminating with
    | true =>
      rw [finalize_gone c hi ht]
      trivial
    | false =>
      rw [finalize_adding c hi ht]
      cases p.metadata.name with
      | none => trivial
      | some name => exact hpatch name _
  | some i =>
    have hmem : Policy.finalizer ∈ p.finalizers := List.isSome_idxOf?.mp (Option.isSome_iff_exists.mpr ⟨i, hi⟩)
    have ht : p.isTerminating = true := by
      cases ht : p.isTerminating with
      | true => rfl
      | false => exact absurd ⟨hmem, ht⟩ h
    rw [finalize_terminating c hi ht]
    cases p.metadata.name with
    | none => trivial
    | some name => exact .bind ((asksOnly_release p).mono fun _ => .inl) fun _ => hpatch name _

theorem asksOnly_reconcile (h : ¬ p.IsServed) : AsksOnly Question.IsUpkeep (reconcile c p) := by
  rw [reconcile_eq]
  refine ⟨.inl trivial, fun leads => ?_⟩
  dsimp only
  split
  · cases p.metadata.namespace with
    | none => trivial
    | some ns => exact asksOnly_finalize c h ns
  · exact .bind ((asksOnly_release p).mono fun _ => .inl) fun _ => .pure _

/-- A visit patches nothing. -/
theorem asksOnly_apply (p : Policy) : AsksOnly (fun q => ∀ ns name operations, q ≠ .patch ns name operations) (apply c p) := by
  cases href : PolicyRef.ofPolicy p with
  | error key =>
    unfold apply
    rw [href]
    trivial
  | ok ref =>
    rw [apply_eq c p href]
    refine ⟨nofun, fun leads => ?_⟩
    dsimp only
    split
    · refine (asksOnly_lead c p ref).mono fun q hq ns name operations => ?_
      rintro rfl
      rcases hq with hq | ⟨_, _, hq⟩ <;> cases hq
    · exact .bind (asksOnly_ask nofun) fun _ => .bind (.bind (asksOnly_ask nofun) fun _ => .pure _) fun _ => .pure _

end Reconciling

namespace Engine

variable {σ : Type} {out : Surroundings σ} {c : Settings} {p : Policy} {e : Engine σ} {uid : String}

theorem run_release (out : Surroundings σ) (c : Settings) (p : Policy) (e : Engine σ) :
    Program.run (answer out c) (Reconciling.release p) e = some ((), e.released p) := by
  cases huid : p.metadata.uid <;> (simp only [Reconciling.release, released, huid]; rfl)

/-- Without leadership a policy is let go of. -/
theorem reconcile_follower (h : out.isLeader e.world = false) :
    e.reconcile out c p = some (.ok (.after c.followerRequeue), e.released p) := by
  simp only [reconcile, run, Reconciling.reconcile_eq, Program.run, answer, h]
  rw [if_neg (by simp), Program.run_bind, run_release]
  rfl

theorem asked_follower (h : out.isLeader e.world = false) :
    ∀ x ∈ (Reconciling.reconcile c p).asked (answer out c) e, x.1.IsRelease := by
  intro x hx
  rw [Reconciling.reconcile_eq, Program.asked] at hx
  rcases List.mem_cons.mp hx with rfl | hx
  · trivial
  · simp only [answer, h] at hx
    have hasks : Program.AsksOnly Question.IsRelease (Reconciling.release p >>= fun _ =>
        pure (.ok (.after c.followerRequeue) : Except ServeError Requeue)) :=
      .bind (Reconciling.asksOnly_release p) fun _ => .pure _
    exact hasks.of_mem_asked hx

theorem reconcile_leader (h : out.isLeader e.world = true) {ns : String} (hns : p.metadata.namespace = some ns) :
    e.reconcile out c p = Program.run (answer out c) (Reconciling.finalize c p ns) e := by
  simp only [reconcile, run, Reconciling.reconcile_eq, Program.run, answer, h, hns]
  rfl

/-- A policy that carries the finalizer and is not being deleted is visited. -/
theorem reconcile_served (h : out.isLeader e.world = true) {ns : String} (hns : p.metadata.namespace = some ns)
    (hserved : p.IsServed) :
    e.reconcile out c p =
      (e.apply out c p).map fun r => (r.1.map fun v => Requeue.after v.requeueAfter, r.2) := by
  rw [reconcile_leader h hns, Reconciling.finalize_served c p hserved, Program.run_bind]
  unfold apply run
  cases Program.run (answer out c) (Reconciling.apply c p) e <;> rfl

/-- A policy that is being deleted is let go of, and then the patch is sent. -/
theorem reconcile_terminating (h : out.isLeader e.world = true) {ns name : String} (hns : p.metadata.namespace = some ns)
    (hname : p.metadata.name = some name) {i : Nat} (hi : p.finalizers.idxOf? Policy.finalizer = some i)
    (ht : p.isTerminating = true) {result : Except Fault Unit} {world : σ}
    (hpatch : out.patch ns name (Policy.removeFinalizer i) e.world = (result, world)) :
    e.reconcile out c p = some (patched result, { e.released p with world }) := by
  rw [reconcile_leader h hns, Reconciling.finalize_terminating c hi ht, hname, Option.elim_some, Program.run_bind,
    run_release]
  simp only [Option.bind_some, Program.run, answer, world_released, hpatch]

/-- Once nothing is held for a policy that is being deleted, the patch and its reply are all that there is to it. -/
theorem reconcile_of_holdsNothing (hnothing : ∀ uid ∈ p.metadata.uid, e.HoldsNothing uid)
    (h : out.isLeader e.world = true) {ns name : String} (hns : p.metadata.namespace = some ns)
    (hname : p.metadata.name = some name) {i : Nat} (hi : p.finalizers.idxOf? Policy.finalizer = some i)
    (ht : p.isTerminating = true) {result : Except Fault Unit} {world : σ}
    (hpatch : out.patch ns name (Policy.removeFinalizer i) e.world = (result, world)) :
    e.reconcile out c p = some (patched result, { e with world }) := by
  rw [reconcile_terminating h hns hname hi ht hpatch, released_of_holdsNothing hnothing]

/-- Of a policy without the finalizer nothing is held or let go of. -/
theorem stores_of_not_mem (hleads : out.isLeader e.world = true) (h : Policy.finalizer ∉ p.finalizers)
    {result : Except ServeError Requeue} {e' : Engine σ} (hrun : e.reconcile out c p = some (result, e')) :
    e'.registry = e.registry ∧ e'.passes = e.passes := by
  have hi : p.finalizers.idxOf? Policy.finalizer = none := by simpa using h
  cases hns : p.metadata.namespace with
  | none =>
    simp only [reconcile, run, Reconciling.reconcile_eq, Program.run, answer, hleads, hns] at hrun
    cases hrun
    exact ⟨rfl, rfl⟩
  | some ns =>
    rw [reconcile_leader hleads hns] at hrun
    cases ht : p.isTerminating with
    | true =>
      rw [Reconciling.finalize_gone c hi ht] at hrun
      cases hrun
      exact ⟨rfl, rfl⟩
    | false =>
      rw [Reconciling.finalize_adding c hi ht] at hrun
      cases hname : p.metadata.name <;> rw [hname] at hrun <;> cases hrun <;> exact ⟨rfl, rfl⟩

theorem of_mem_asked_finalize {ns ns' name : String} {operations : Json} {e₁ : Engine σ}
    (hx : (Question.patch ns name operations, e₁) ∈ (Reconciling.finalize c p ns').asked (answer out c) e) :
    ns' = ns ∧ p.metadata.name = some name ∧
      ((∃ i, operations = Policy.removeFinalizer i ∧ p.finalizers.idxOf? Policy.finalizer = some i ∧
          p.isTerminating = true ∧ e₁ = e.released p) ∨
        operations = p.addFinalizer ∧ Policy.finalizer ∉ p.finalizers ∧ p.isTerminating = false ∧ e₁ = e) := by
  cases hi : p.finalizers.idxOf? Policy.finalizer with
  | none =>
    have hnot : Policy.finalizer ∉ p.finalizers := by simpa using hi
    cases ht : p.isTerminating with
    | true =>
      rw [Reconciling.finalize_gone c hi ht] at hx
      cases hx
    | false =>
      rw [Reconciling.finalize_adding c hi ht] at hx
      cases hname : p.metadata.name <;> rw [hname] at hx
      · cases hx
      · simp only [Option.elim_some, Program.asked, answer, List.mem_singleton] at hx
        cases hx
        exact ⟨rfl, rfl, .inr ⟨rfl, hnot, rfl, rfl⟩⟩
  | some i =>
    cases ht : p.isTerminating with
    | false =>
      have hmem : Policy.finalizer ∈ p.finalizers := List.isSome_idxOf?.mp (Option.isSome_iff_exists.mpr ⟨i, hi⟩)
      rw [Reconciling.finalize_served c p ⟨hmem, ht⟩] at hx
      have hasks : Program.AsksOnly (fun q => ∀ ns name operations, q ≠ Question.patch ns name operations)
          (Reconciling.apply c p >>= fun v => pure (v.map fun v => Requeue.after v.requeueAfter)) :=
        .bind (Reconciling.asksOnly_apply c p) fun _ => .pure _
      exact absurd rfl (hasks.of_mem_asked hx ns name operations)
    | true =>
      rw [Reconciling.finalize_terminating c hi ht] at hx
      cases hname : p.metadata.name <;> rw [hname] at hx
      · cases hx
      · rw [Option.elim_some, Program.asked_bind, run_release, List.mem_append] at hx
        rcases hx with hx | hx
        · exact ((Reconciling.asksOnly_release p).of_mem_asked hx).elim
        · simp only [Option.elim_some, Program.asked, answer, List.mem_singleton] at hx
          cases hx
          exact ⟨rfl, rfl, .inl ⟨i, rfl, rfl, rfl, rfl⟩⟩

/-- A patch takes the finalizer away from a policy that is being deleted and has been let go of, or adds it to a policy
that lacks it. -/
theorem of_mem_asked_patch {ns name : String} {operations : Json} {e₁ : Engine σ}
    (hx : (Question.patch ns name operations, e₁) ∈ (Reconciling.reconcile c p).asked (answer out c) e) :
    out.isLeader e.world = true ∧ p.metadata.namespace = some ns ∧ p.metadata.name = some name ∧
      ((∃ i, operations = Policy.removeFinalizer i ∧ p.finalizers.idxOf? Policy.finalizer = some i ∧
          p.isTerminating = true ∧ e₁ = e.released p) ∨
        operations = p.addFinalizer ∧ Policy.finalizer ∉ p.finalizers ∧ p.isTerminating = false ∧ e₁ = e) := by
  cases hleads : out.isLeader e.world with
  | false => exact (asked_follower hleads _ hx).elim
  | true =>
    rw [Reconciling.reconcile_eq, Program.asked] at hx
    rcases List.mem_cons.mp hx with heq | hx
    · cases heq
    simp only [answer, hleads, if_true] at hx
    cases hns : p.metadata.namespace with
    | none =>
      rw [hns] at hx
      cases hx
    | some ns' =>
      rw [hns, Option.elim_some] at hx
      obtain ⟨rfl, hpatch⟩ := of_mem_asked_finalize hx
      exact ⟨rfl, rfl, hpatch⟩

/-! ## §3 Protocol -/

variable (out c p) in
/-- Reconciling a policy several times over, with what comes of each time. -/
def again : Nat → Engine σ → Option (List (Except ServeError Requeue) × Engine σ)
  | 0, e => some ([], e)
  | n + 1, e => (e.reconcile out c p).bind fun r => (again n r.2).map fun rs => (r.1 :: rs.1, rs.2)

/-- In the worlds of a set this replica leads and the patch fails, which leads to a world of the set again. -/
structure Fails (out : Surroundings σ) («namespace» name : String) (operations : Json) (fault : Fault) (W : σ → Prop) :
    Prop where
  leads : ∀ w, W w → out.isLeader w = true
  fails : ∀ w, W w → ∃ w', out.patch «namespace» name operations w = (.error fault, w') ∧ W w'

/-- By induction on the times: what has been let go of stays so, and each time the patch is sent and fails. -/
theorem again_failing {ns name : String} (hns : p.metadata.namespace = some ns) (hname : p.metadata.name = some name)
    {i : Nat} (hi : p.finalizers.idxOf? Policy.finalizer = some i) (ht : p.isTerminating = true) {fault : Fault}
    {W : σ → Prop} (hW : Fails out ns name (Policy.removeFinalizer i) fault W) (n : Nat)
    (hnothing : ∀ uid ∈ p.metadata.uid, e.HoldsNothing uid) (hworld : W e.world) :
    ∃ world, again out c p n e = some (List.replicate n (.error (.api fault)), { e with world }) := by
  induction n generalizing e with
  | zero => exact ⟨e.world, rfl⟩
  | succ n ih =>
    obtain ⟨w, hpatch, hw⟩ := hW.fails e.world hworld
    have hrun := reconcile_of_holdsNothing (c := c) hnothing (hW.leads _ hworld) hns hname hi ht hpatch
    obtain ⟨world, hagain⟩ := ih (e := { e with world := w }) (fun uid huid => (hnothing uid huid).of_world w) hw
    exact ⟨world, by simp [again, hrun, hagain, patched, List.replicate_succ]⟩

/-- However a policy's finalizers, its deletion mark, the leadership and the replies of the world are, reconciling it
follows the protocol.

Without leadership the world stays as it is and nothing is held for the policy afterwards. With leadership the policy is
visited if it carries the finalizer and is not being deleted; otherwise nothing is asked but to let go of it and to patch
it, and without the finalizer what is held stays the same. The patch that takes the finalizer away is sent when nothing
is held for the policy any more. Whatever the reply to it is, it is returned and nothing is held; and whatever has become
of the world by then, reconciling the policy once more with leadership sends the patch again, returns the reply to that
and changes nothing. So however often the policy is reconciled while the patch fails, it comes to the same. -/
theorem finalizer_protocol {P : Bool → Prop} (hsound : e.registry.Sound P) (out : Surroundings σ) (c : Settings)
    (p : Policy) :
    (out.isLeader e.world = false →
      ∃ e', e.reconcile out c p = some (.ok (.after c.followerRequeue), e') ∧ e'.world = e.world ∧
        (∀ x ∈ (Reconciling.reconcile c p).asked (answer out c) e, x.1.IsRelease) ∧
        ∀ uid ∈ p.metadata.uid, e'.HoldsNothing uid) ∧
    (out.isLeader e.world = true →
      (p.IsServed → ∀ ns ∈ p.metadata.namespace, e.reconcile out c p =
        (e.apply out c p).map fun r => (r.1.map fun v => Requeue.after v.requeueAfter, r.2)) ∧
      (¬ p.IsServed → ∀ x ∈ (Reconciling.reconcile c p).asked (answer out c) e, x.1.IsUpkeep) ∧
      (Policy.finalizer ∉ p.finalizers → ∀ result e', e.reconcile out c p = some (result, e') →
        e'.registry = e.registry ∧ e'.passes = e.passes)) ∧
    (∀ ns name operations e₁,
      (Question.patch ns name operations, e₁) ∈ (Reconciling.reconcile c p).asked (answer out c) e →
        (∃ i, operations = Policy.removeFinalizer i ∧ p.finalizers.idxOf? Policy.finalizer = some i ∧
            p.isTerminating = true ∧ ∀ uid ∈ p.metadata.uid, e₁.HoldsNothing uid) ∨
          operations = p.addFinalizer ∧ Policy.finalizer ∉ p.finalizers ∧ p.isTerminating = false) ∧
    (∀ ns name i result world, p.metadata.namespace = some ns → p.metadata.name = some name →
      p.finalizers.idxOf? Policy.finalizer = some i → p.isTerminating = true → out.isLeader e.world = true →
      out.patch ns name (Policy.removeFinalizer i) e.world = (result, world) →
      ∃ e', e.reconcile out c p = some (patched result, e') ∧ e'.world = world ∧
        (∀ uid ∈ p.metadata.uid, e'.HoldsNothing uid) ∧
        ∀ world₁ result' world₂, out.isLeader world₁ = true →
          out.patch ns name (Policy.removeFinalizer i) world₁ = (result', world₂) →
          ({ e' with world := world₁ } : Engine σ).reconcile out c p =
            some (patched result', { e' with world := world₂ })) ∧
    ∀ ns name i fault (W : σ → Prop), p.metadata.namespace = some ns → p.metadata.name = some name →
      p.finalizers.idxOf? Policy.finalizer = some i → p.isTerminating = true →
      Fails out ns name (Policy.removeFinalizer i) fault W → W e.world →
      ∃ e', e.reconcile out c p = some (.error (.api fault), e') ∧ (∀ uid ∈ p.metadata.uid, e'.HoldsNothing uid) ∧
        ∀ n, ∃ world, again out c p n e' = some (List.replicate n (.error (.api fault)), { e' with world }) := by
  have hreleased : ∀ uid ∈ p.metadata.uid, (e.released p).HoldsNothing uid :=
    fun uid huid => holdsNothing_released hsound huid
  refine ⟨fun h => ⟨_, reconcile_follower h, world_released e p, asked_follower h, hreleased⟩, fun h => ⟨?_, ?_, ?_⟩,
    ?_, ?_, ?_⟩
  · exact fun hserved ns hns => reconcile_served h hns hserved
  · exact fun hserved x hx => (Reconciling.asksOnly_reconcile c hserved).of_mem_asked hx
  · exact fun hnot result e' hrun => stores_of_not_mem h hnot hrun
  · intro ns name operations e₁ hx
    obtain ⟨-, -, -, ⟨i, hops, hi, ht, rfl⟩ | ⟨hops, hnot, ht, -⟩⟩ := of_mem_asked_patch hx
    · exact .inl ⟨i, hops, hi, ht, hreleased⟩
    · exact .inr ⟨hops, hnot, ht⟩
  · intro ns name i result world hns hname hi ht hleads hpatch
    refine ⟨_, reconcile_terminating hleads hns hname hi ht hpatch, rfl,
      fun uid huid => (hreleased uid huid).of_world world, fun world₁ result' world₂ hleads' hpatch' => ?_⟩
    exact reconcile_of_holdsNothing (fun uid huid => (hreleased uid huid).of_world world₁) hleads' hns hname hi ht hpatch'
  · intro ns name i fault W hns hname hi ht hW hworld
    obtain ⟨w, hpatch, hw⟩ := hW.fails e.world hworld
    have hnothing : ∀ uid ∈ p.metadata.uid, ({ e.released p with world := w } : Engine σ).HoldsNothing uid :=
      fun uid huid => (hreleased uid huid).of_world w
    exact ⟨_, reconcile_terminating (hW.leads _ hworld) hns hname hi ht hpatch, hnothing,
      fun n => again_failing hns hname hi ht hW n hnothing hw⟩

/-- A policy that is being deleted and carries another finalizer, too. -/
def farewell : Policy where
  metadata :=
    { name := some "hourly", «namespace» := some "prod", uid := some "p-1", deletionTimestamp := some ⟨7200, 0⟩
      finalizers := some ["keep", Policy.finalizer] }
  spec :=
    { targetResource := { apiVersion := "v1", kind := "Pod" }
      ttl := { secondsAfterCreation := some 3600 } }

/-- A world in which watches can be opened, and no patch comes through. -/
def unreachable : Surroundings Rehearsal :=
  { Rehearsal.surroundings with
    openWatch := fun _ w => (.ok false, w)
    patch := fun _ _ _ w => (.error (.service "down"), w) }

/-- A watch is open for the policy, and a pass is remembered. -/
def serving : Engine Rehearsal where
  registry := ((({} : Registry).ensure unreachable.openWatch "p-1" default (.ofInt (10 : Nat)) .zero {}).1).2
  passes := .ofList [("p-1", ⟨farewell.spec, ⟨3600, 0⟩⟩)]
  world := {}

/-- What was held is let go of, and the policy is reconciled in vain for as long as it takes. -/
theorem finalizer_protocol_farewell :
    serving.registry.IsLive "p-1" 0 ∧ (serving.passes.get? "p-1").isSome = true ∧
      ∃ e', serving.reconcile unreachable {} farewell = some (.error (.api (.service "down")), e') ∧
        e'.HoldsNothing "p-1" ∧
        ∀ n, ∃ world, again unreachable {} farewell n e' =
          some (List.replicate n (.error (.api (.service "down"))), { e' with world }) := by
  have hopen (target : WatchTarget) (world : Rehearsal) : (unreachable.openWatch target world).1 ≠ .ok true := by
    simp [unreachable]
  have hkept := Registry.ensure_spec Registry.kept_empty hopen "p-1" default (n := 10) (by decide) (by decide) .zero {}
  have hfails : Fails unreachable "prod" "hourly" (Policy.removeFinalizer 1) (.service "down") fun w => w.isLeader = true :=
    ⟨fun w hw => hw, fun w hw => ⟨w, rfl, hw⟩⟩
  obtain ⟨-, -, -, -, hfailing⟩ := finalizer_protocol (e := serving) hkept.1.kept.sound unreachable {} farewell
  obtain ⟨e', hrun, hnothing, hagain⟩ := hfailing "prod" "hourly" 1 (.service "down") _ rfl rfl rfl rfl hfails rfl
  exact ⟨⟨_, rfl, rfl, rfl⟩, by decide +kernel, e', hrun, hnothing "p-1" rfl, hagain⟩

end Engine

end Reaper
