import Reaper.Proofs.Reconciler.Finalizing
import Reaper.Proofs.Reconciler.Statuses
import Reaper.Proofs.Registry.Pruning

/-!
What a prune of a reconciler does.

The pass records and the registry are pruned each in its own way, and a prune reports only those policies whose slot held
something. Still it is exact: the living keep all that they have, everybody else is let go of, and the report names
whoever had a slot (`prune_is_exact`). For the report it takes that no visit ends with an empty slot, however it goes:
a visit enters a state before it ends (`yields_settled_apply`).

  §1 Visits — a visit of a policy leaves every policy with a slot in a state.
  §2 Prunes — so every run does, and what a prune comes to.
-/

namespace Reaper

open Program (AsksOnly Yields)
open Registry (Settled)

namespace Engine

variable {σ : Type} {out : Surroundings σ} {c : Settings} {p : Policy} {ref : PolicyRef} {e e' : Engine σ}

/-! ## §1 Visits -/

/-- Whatever a visit asks on its way, the policies that are not visited stay in their states. -/
theorem settled_answer {q : Question} {a : q.Answer} (hq : q.IsVisit ref) (h : Settled (some ref.uid) e.registry)
    (hanswer : answer out c q e = some (a, e')) : Settled (some ref.uid) e'.registry := by
  obtain hq | ⟨p, hs, rfl⟩ := hq
  · cases q with
    | ensure uid target rate =>
      obtain rfl : uid = ref.uid := hq
      cases hanswer
      exact h.ensure out.openWatch target _ _ _
    | setState uid s =>
      obtain ⟨rfl, hs⟩ : uid = ref.uid ∧ s ≠ .notTracked := hq
      cases hanswer
      exact (h.setState hs).begin _
    | now | lastPass | remember | state | handles | snapshot | notify | writeStatus =>
      cases hanswer
      exact h
    | halt => cases hanswer
    | isLeader | forget | forgetOthers | remove | prune | evaluate | patch => exact hq.elim
  · obtain ⟨b, hregistry, -⟩ := pass_of_answer hanswer
    rw [hregistry]
    exact h.setLimiter hs.limiter b

/-- The rest of a visit ends with every policy that has a slot in a state, the one that is visited among them. -/
def EndsSettled (out : Surroundings σ) (c : Settings) (ref : PolicyRef) {α : Type} (a : Reconciling α) : Prop :=
  ∀ e : Engine σ, Settled (some ref.uid) e.registry → Yields (answer out c) a e fun _ _ e' => Settled none e'.registry

theorem EndsSettled.after {α β : Type} {a : Reconciling α} {f : α → Reconciling β}
    (ha : AsksOnly (Question.IsVisit ref) a) (hf : ∀ x, EndsSettled out c ref (f x)) : EndsSettled out c ref (a >>= f) :=
  fun _ h => .bind ((ha.yields (I := fun e => Settled (some ref.uid) e.registry) settled_answer h).mono
    fun _ x e' h' => hf x e' h')

/-- Entering a state at the end of a visit. -/
theorem Ended.settled {previous s : PolicyState} (hs : s ≠ .notTracked) {qs : List Question} {v : Visit}
    (h : Settled (some ref.uid) e.registry) (hended : Ended ref previous s e qs v e') : Settled none e'.registry := by
  rw [hended.registry]
  exact h.setState hs

theorem endsSettled_fail (previous : PolicyState) (err : ServeError) :
    EndsSettled out c ref (Reconciling.fail c p ref previous err) :=
  fun e h => (yields_fail previous err e).mono fun _ _ _ hended => hended.settled (s := .error) nofun h

theorem endsSettled_visitPaused (previous : PolicyState) (target : WatchTarget) :
    EndsSettled out c ref (Reconciling.visitPaused c p ref previous target) := by
  refine .after ((Reconciling.asksOnly_pausedHandles c p ref target).mono fun _ => .inl) fun result => ?_
  cases result with
  | error err => exact endsSettled_fail previous err
  | ok handles =>
    have hrest (result : PassResult) : EndsSettled out c ref (do
        Reconciling.transition ref previous .paused
        Reconciling.writeStatus c p ref .paused result "Policy is paused; deletions are suspended"
        pure (⟨.paused, some result, c.gcInterval⟩ : Visit)) := fun e h =>
      (yields_ending (isAside_pure ()) previous .paused result _ (some result) c.gcInterval e).mono
        fun _ _ _ hended => hended.settled (s := .paused) nofun h
    cases handles with
    | some hs => exact .after ((Reconciling.asksOnly_scan p ref hs).mono fun _ => .inl) hrest
    | none => exact .after (.pure _) hrest

theorem endsSettled_visitActive (previous : PolicyState) (target : WatchTarget) :
    EndsSettled out c ref (Reconciling.visitActive c p ref previous target) := by
  refine .after (Reconciling.asksOnly_ask (.inl rfl)) fun result => ?_
  cases result with
  | error err => exact endsSettled_fail previous err
  | ok _ =>
    refine .after (Reconciling.asksOnly_ask (.inl rfl)) fun handles => ?_
    cases handles with
    | none => exact endsSettled_fail previous _
    | some hs =>
      refine .after (Reconciling.asksOnly_ask (.inr ⟨p, hs, rfl⟩)) fun result e h => ?_
      exact (yields_ending (isAside_notifyAll reason_of_mem_notices) previous .active result result.summary (some result)
        c.gcInterval e).mono fun _ _ _ hended => hended.settled (s := .active) nofun h

theorem endsSettled_visit (previous : PolicyState) : EndsSettled out c ref (Reconciling.visit c p ref previous) := by
  refine .after (Reconciling.asksOnly_ask (.inl trivial)) fun now => ?_
  refine .after (Reconciling.asksOnly_ask (.inl rfl)) fun _ => ?_
  have hrest : EndsSettled out c ref
      (Reconciling.require (WatchTarget.ofPolicy? p) >>= Reconciling.visitTarget c p ref previous) := by
    refine .after ((Reconciling.asksOnly_require ref _).mono fun _ => .inl) fun result => ?_
    cases result with
    | error err => exact endsSettled_fail previous _
    | ok target =>
      unfold Reconciling.visitTarget
      dsimp only
      split
      · exact endsSettled_visitPaused previous target
      · exact endsSettled_visitActive previous target
  dsimp only
  split
  · exact .after (Reconciling.asksOnly_ask (.inl rfl)) fun _ => hrest
  · exact hrest

/-- However a visit goes, if it ends then every policy that has a slot is in a state. -/
theorem yields_settled_apply (p : Policy) (h : Settled none e.registry) :
    Yields (answer out c) (Reconciling.apply c p) e fun _ _ e' => Settled none e'.registry := by
  cases href : PolicyRef.ofPolicy p with
  | error key =>
    unfold Reconciling.apply
    rw [href]
    exact .pure h
  | ok ref =>
    rw [Reconciling.apply_eq c p href]
    refine Yields.ask fun leads e₁ hanswer => ?_
    obtain ⟨-, rfl⟩ := Prod.mk.inj (Option.some.inj hanswer)
    cases leads with
    | false =>
      refine .ask fun _ e₂ h₂ => ?_
      cases h₂
      refine .ask fun held e₃ h₃ => ?_
      cases h₃
      exact .pure (h.remove ref.uid)
    | true =>
      refine .ask fun previous e₁ h₁ => ?_
      cases h₁
      refine .bind ((yields_wait e).mono fun _ left e₁ hwait => ?_)
      obtain ⟨-, hsame, -⟩ := hwait
      rw [← hsame.registry] at h
      cases left with
      | some left => exact .pure h
      | none =>
        refine .bind ((endsSettled_visit _ e₁ (h.begin _)).mono fun _ v e' h' => ?_)
        exact .pure h'

end Engine

namespace Engine

variable {σ : Type}

/-! ## §2 Prunes -/

/-- Nothing has changed about a policy: the record of its last pass, and all that is held for it. -/
structure LeavesAlone (uid : String) (e e' : Engine σ) : Prop where
  pass : e'.passes.get? uid = e.passes.get? uid
  registry : e.registry.LeavesAlone uid e'.registry

/-- From `e` all but the living have been let go of, and those who had a slot have been reported. -/
structure IsPruned (live : List String) (e : Engine σ) (removed : List String) (e' : Engine σ) : Prop where
  kept : ∀ uid ∈ live, LeavesAlone uid e e'
  gone : ∀ uid, uid ∉ live → e'.HoldsNothing uid
  /-- the watch that was held has been stopped -/
  cancelled : ∀ uid, uid ∉ live → ∀ w, e.registry.held? uid = some w →
    ∃ watch, e'.registry.watches[w]? = some watch ∧ watch.cancelled = true
  once : removed.Nodup
  reported : ∀ uid, uid ∈ removed ↔ e.registry.slot? uid ≠ none ∧ e'.registry.slot? uid = none
  /-- there is nothing more to do -/
  again : e'.prune live = ([], e')

theorem get?_passes_prune (e : Engine σ) (live : List String) (uid : String) :
    (e.prune live).2.passes.get? uid = if uid ∈ live then e.passes.get? uid else none := by
  simpa [Engine.prune] using Dictionary.get?_filter e.passes live.contains uid

/-- A prune is exact where every policy with a slot is in a state. -/
theorem isPruned_of_settled {e : Engine σ} (h : Settled none e.registry) (live : List String) :
    IsPruned live e (e.prune live).1 (e.prune live).2 where
  kept uid huid := ⟨by rw [get?_passes_prune, if_pos huid], h.sound.leavesAlone_prune huid⟩
  gone := by
    intro uid huid
    have hslot : (e.prune live).2.registry.slot? uid = none :=
      (h.sound.slot?_prune live uid).trans (if_neg huid)
    exact
      { holding := Registry.holding?_eq_none_iff.mpr hslot
        watch := (h.sound.prune live).not_isLive_of_none hslot
        pass := by rw [get?_passes_prune, if_neg huid] }
  cancelled uid huid w hheld := h.sound.cancelled_prune huid hheld
  once := by
    rw [show (e.prune live).1 = (e.registry.prune live).1 from rfl, h.removed_prune]
    exact Registry.nodup_stale e.registry live
  reported := by
    intro uid
    rw [show (e.prune live).1 = (e.registry.prune live).1 from rfl, h.removed_prune, Registry.mem_stale,
      show (e.prune live).2.registry = (e.registry.prune live).2 from rfl, h.sound.slot?_prune]
    refine and_congr_right fun hslot => ?_
    by_cases huid : uid ∈ live <;> simp [huid, hslot]
  again := by
    have hregistry := h.sound.prune_of_prune live
    have hpasses : (e.prune live).2.passes.filter (fun uid _ => live.contains uid) = (e.prune live).2.passes := by
      apply Dictionary.ext
      simp [Engine.prune, Dictionary.filter, List.filter_filter]
    generalize hpruned : (e.prune live).2 = e' at hpasses ⊢
    rw [show (e.registry.prune live).2 = e'.registry from congrArg Engine.registry hpruned] at hregistry
    unfold Engine.prune
    rw [hregistry, hpasses]

end Engine

namespace Chronicle

variable {σ : Type} {out : Surroundings σ} {c : Settings}

theorem settled_act {e e' : Engine σ} (h : Settled none e.registry) {a : Act σ} {visit : Option Visit}
    (hact : e.act out c a = some (visit, e')) : Settled none e'.registry := by
  cases a with
  | apply p =>
    obtain ⟨⟨result, e''⟩, happly, heq⟩ := Option.map_eq_some_iff.mp hact
    cases heq
    exact Engine.yields_settled_apply p h result _ happly
  | teardown uid =>
    cases hact
    exact h.remove uid
  | prune live =>
    cases hact
    exact h.removeAll _
  | meanwhile world =>
    cases hact
    exact h
  | cancelRoot =>
    cases hact
    exact h.of_state (h.sound.sameWatches ⟨rfl, rfl, fun _ => rfl, fun _ => rfl, rfl⟩) (fun hk _ => hk) fun _ => rfl

/-- Whatever has been done with a reconciler, every policy that has a slot is in a state. -/
theorem settled_run {world : σ} {acts : List (Act σ)} {s : Chronicle σ}
    (hrun : run out c ⟨{ world }, []⟩ acts = some s) : Settled none s.engine.registry := by
  refine run_induction (P := fun s => Settled none s.engine.registry) (fun s d h hbefore hgenuine => ?_) hrun
    Registry.settled_empty
  rw [← hbefore] at h
  exact settled_act h hgenuine

/-- After everything that can be done with a reconciler, one thing after the other, and whoever is among the living: a
prune changes nothing about these, lets go of everybody else, and reports whoever had a slot, each once. A second prune
finds nothing to do. -/
theorem prune_is_exact {world : σ} {acts : List (Act σ)} {s : Chronicle σ}
    (hrun : run out c ⟨{ world }, []⟩ acts = some s) (live : List String) :
    Engine.IsPruned live s.engine (s.engine.prune live).1 (s.engine.prune live).2 :=
  Engine.isPruned_of_settled (settled_run hrun) live

/-- The hourly policy once more, under another name. -/
def twin : Policy :=
  { Engine.hourly with metadata := { Engine.hourly.metadata with name := some "twin", uid := some "p-2" } }

/-- Two policies are served, and one of them is gone: a prune lets go of this one and leaves the other alone. -/
theorem prune_is_exact_twins :
    ∃ s, run steady {} ⟨{ world := Engine.onePod.world }, []⟩ [.apply Engine.hourly, .apply twin] = some s ∧
      s.engine.registry.state "p-1" = .active ∧ s.engine.registry.state "p-2" = .active ∧
      Engine.IsPruned ["p-1"] s.engine ["p-2"] (s.engine.prune ["p-1"]).2 := by
  have htarget : WatchTarget.ofPolicy? twin = WatchTarget.ofPolicy? Engine.hourly := rfl
  have hvisits : ((Engine.apply steady {} Engine.hourly { world := Engine.onePod.world }).bind fun r =>
      (r.2.apply steady {} twin).map fun r' =>
        (r'.2.registry.state "p-1", r'.2.registry.state "p-2", (r'.2.prune ["p-1"]).1)) =
      some (.active, .active, ["p-2"]) := by
    unfold Engine.apply Reconciling.apply Reconciling.visit
    rw [htarget, Engine.target_hourly]
    decide +kernel
  obtain ⟨⟨result₁, e₁⟩, hfirst, hrest⟩ := Option.bind_eq_some_iff.mp hvisits
  obtain ⟨⟨result₂, e₂⟩, hsecond, heq⟩ := Option.map_eq_some_iff.mp hrest
  obtain ⟨hone, heq⟩ := Prod.mk.inj heq
  obtain ⟨htwo, hremoved⟩ := Prod.mk.inj heq
  have hact₁ : Engine.act steady {} { world := Engine.onePod.world } (.apply Engine.hourly) =
      some (result₁.toOption, e₁) := by rw [Engine.act, hfirst]; rfl
  have hact₂ : Engine.act steady {} e₁ (.apply twin) = some (result₂.toOption, e₂) := by rw [Engine.act, hsecond]; rfl
  have hrun : run steady {} ⟨{ world := Engine.onePod.world }, []⟩ [.apply Engine.hourly, .apply twin] =
      some ⟨e₂, [⟨.apply twin, e₁, e₂, result₂.toOption⟩,
        ⟨.apply Engine.hourly, { world := Engine.onePod.world }, e₁, result₁.toOption⟩]⟩ := by
    rw [run_cons hact₁, run_cons hact₂]
    rfl
  refine ⟨_, hrun, hone, htwo, ?_⟩
  have hpruned := prune_is_exact hrun ["p-1"]
  dsimp only at hpruned hremoved
  rwa [hremoved] at hpruned

end Chronicle

end Reaper
