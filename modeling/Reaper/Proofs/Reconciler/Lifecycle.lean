import Reaper.Proofs.Reconciler.Deletions
import Reaper.Proofs.Reconciler.Outcomes

/-!
The lifecycle of policies.

A reconciler keeps the records of passes and the registry of what is held, and reports what it does. However policies
are visited, torn down and pruned, one thing after the other, these agree with each other and with what was done: with
the state that the last visit returned (`standing`), and with the policy for which a pass was last run (`lastRan`).

  §1 Chronicles — what is done with a reconciler, and what can be told from a record of it.
  §2 Lifecycles — what holds for each policy after everything that is done.
  §3 Steps      — everything that is done keeps it.
  §4 Runs       — so it holds after every run.
-/

namespace Reaper

/-! ## §1 Chronicles -/

/-- Something that is done with a reconciler, or happens to it. -/
inductive Act (σ : Type) where
  | apply (p : Policy)
  | teardown (uid : String)
  | prune (live : List String)
  /-- the world outside becomes another one -/
  | meanwhile (world : σ)
  /-- all watches are stopped from outside -/
  | cancelRoot

/-- The policy that is visited, if it is the one that is asked for. -/
def Act.policy? {σ : Type} (uid : String) : Act σ → Option Policy
  | apply p => if (PolicyRef.ofPolicy p).toOption.map (·.uid) = some uid then some p else none
  | _ => none

/-- What an act has left, and the visit that it has returned, if it has returned one. -/
def Engine.act {σ : Type} (out : Surroundings σ) (c : Settings) (e : Engine σ) :
    Act σ → Option (Option Visit × Engine σ)
  | .apply p => (e.apply out c p).map fun r => (r.1.toOption, r.2)
  | .teardown uid => some (none, (e.teardown uid).2)
  | .prune live => some (none, (e.prune live).2)
  | .meanwhile world => some (none, { e with world })
  | .cancelRoot => some (none, { e with registry := { e.registry with rootCancelled := true } })

/-- An act that has been done. -/
structure Deed (σ : Type) where
  act : Act σ
  before : Engine σ
  after : Engine σ
  /-- what a visit has returned -/
  visit : Option Visit

namespace Deed

variable {σ : Type} (out : Surroundings σ) (c : Settings)

/-- The questions that a visit has asked. -/
def questions (d : Deed σ) : List Question :=
  match d.act with
  | .apply p => ((Reconciling.apply c p).asked (Engine.answer out c) d.before).map (·.1)
  | _ => []

/-- The policy is let go of: by its name, because it is not among the living, or because this replica does not lead. -/
def undoes (uid : String) (d : Deed σ) : Bool :=
  match d.act with
  | .teardown k => k = uid
  | .prune live => !live.contains uid
  | .apply _ => (d.act.policy? uid).isSome && !out.isLeader d.before.world
  | _ => false

/-- The state that a visit of the policy has returned. -/
def returned? (uid : String) (d : Deed σ) : Option PolicyState :=
  (d.act.policy? uid).bind fun _ => d.visit.map (·.state)

/-- The policy, if a pass has been run for it. -/
def ran? (uid : String) (d : Deed σ) : Option Policy :=
  (d.act.policy? uid).filter fun _ => Question.remembers uid (d.questions out c)

/-- The state that the last visit of the policy has returned, unless the policy has been let go of since. -/
def standing (uid : String) : List (Deed σ) → PolicyState
  | [] => .notTracked
  | d :: earlier => if d.undoes out uid then .notTracked else (d.returned? uid).getD (standing uid earlier)

/-- The policy for which a pass was last run. -/
def lastRan (uid : String) : List (Deed σ) → Option Policy
  | [] => none
  | d :: earlier => (d.ran? out c uid).or (lastRan uid earlier)

end Deed

/-- A reconciler, and what has been done with it, the last deed first. -/
structure Chronicle (σ : Type) where
  engine : Engine σ
  deeds : List (Deed σ) := []

namespace Chronicle

variable {σ : Type} (out : Surroundings σ) (c : Settings)

def step (s : Chronicle σ) (a : Act σ) : Option (Chronicle σ) :=
  (s.engine.act out c a).map fun r => ⟨r.2, ⟨a, s.engine, r.2, r.1⟩ :: s.deeds⟩

/-- One act after the other; none when one of them does not end. -/
def run (s : Chronicle σ) (acts : List (Act σ)) : Option (Chronicle σ) := acts.foldlM (step out c) s

/-! ## §2 Lifecycles -/

/-- What holds for a policy. -/
structure Lifecycle (s : Chronicle σ) (uid : String) : Prop where
  /-- a pass is on record exactly if there is a slot -/
  recorded : (s.engine.passes.get? uid).isSome = (s.engine.registry.slot? uid).isSome
  state : s.engine.registry.state uid = Deed.standing out uid s.deeds
  /-- an active policy has its watch and no other, which is not stopped unless all are, and a limiter at its rate -/
  active : s.engine.registry.state uid = .active → ∃ p hs b, Deed.lastRan out c uid s.deeds = some p ∧
    s.engine.registry.handles? uid = some hs ∧ WatchTarget.ofPolicy? p = some (.ok hs.target) ∧
    (∀ w, s.engine.registry.IsLive uid w ↔ w = hs.watch) ∧
    s.engine.registry.isStopped hs.watch = s.engine.registry.rootCancelled ∧
    s.engine.registry.limiters[hs.limiter]? = some b ∧ b.rate = c.rateFor p
  /-- a paused policy has no watch on another target -/
  paused : s.engine.registry.state uid = .paused → ∃ p target, Deed.lastRan out c uid s.deeds = some p ∧
    WatchTarget.ofPolicy? p = some (.ok target) ∧ ∀ t, s.engine.registry.target? uid = some t → t = target

/-- The state that a visit has returned after a pass is in the registry, in the only status that it has written, and has
been reported if it is not the state from before. -/
def Reported (d : Deed σ) : Prop :=
  ∀ p ref, d.act = .apply p → PolicyRef.ofPolicy p = .ok ref →
    Question.remembers ref.uid (d.questions out c) = true →
    ∃ v, d.visit = some v ∧ v.state ≠ .notTracked ∧ d.after.registry.state ref.uid = v.state ∧
      Question.phases (d.questions out c) = [v.state.phase?] ∧
      Question.changes (d.questions out c) =
        if d.before.registry.state ref.uid = v.state then []
        else [.phaseChanged (d.before.registry.state ref.uid) v.state]

/-! ## §3 Steps -/

open Question (remembers)

variable {out c} {s : Chronicle σ} {uid : String} {d : Deed σ} {e' : Engine σ}

@[simp] theorem passes_teardown (e : Engine σ) (uid : String) : (e.teardown uid).2.passes = e.passes.erase uid := rfl

@[simp] theorem registry_teardown (e : Engine σ) (uid : String) :
    (e.teardown uid).2.registry = (e.registry.remove uid).2 := rfl

@[simp] theorem passes_prune (e : Engine σ) (live : List String) :
    (e.prune live).2.passes = e.passes.filter fun uid _ => live.contains uid := rfl

@[simp] theorem registry_prune (e : Engine σ) (live : List String) :
    (e.prune live).2.registry = (e.registry.prune live).2 := rfl

/-- What is held for a policy, and what is on record, agree with the deeds. -/
structure Tracks (out : Surroundings σ) (c : Settings) (s : Chronicle σ) (uid : String) : Prop where
  recorded : (s.engine.passes.get? uid).isSome = (s.engine.registry.holding? uid).isSome
  state : s.engine.registry.state uid = Deed.standing out uid s.deeds
  suits : ∀ held, s.engine.registry.holding? uid = some held →
    ∃ p, Deed.lastRan out c uid s.deeds = some p ∧ Engine.Suits c p uid held

/-- A deed that has nothing to do with the policy. -/
theorem Tracks.same (h : Tracks out c s uid) (hundoes : d.undoes out uid = false) (hpolicy : d.act.policy? uid = none)
    (hpasses : e'.passes.get? uid = s.engine.passes.get? uid)
    (hholding : e'.registry.holding? uid = s.engine.registry.holding? uid) : Tracks out c ⟨e', d :: s.deeds⟩ uid := by
  have hstanding : Deed.standing out uid (d :: s.deeds) = Deed.standing out uid s.deeds := by
    simp [Deed.standing, Deed.returned?, hundoes, hpolicy]
  have hlast : Deed.lastRan out c uid (d :: s.deeds) = Deed.lastRan out c uid s.deeds := by
    simp [Deed.lastRan, Deed.ran?, hpolicy]
  exact
    { recorded := by
        dsimp only
        rw [hpasses, hholding, h.recorded]
      state := by
        dsimp only
        rw [hstanding, Registry.state_eq, hholding, ← Registry.state_eq, h.state]
      suits := by
        intro held hheld
        rw [hlast]
        exact h.suits held (hholding ▸ hheld) }

/-- A deed by which the policy has been let go of. -/
theorem Tracks.gone (hundoes : d.undoes out uid = true) (hpasses : e'.passes.get? uid = none)
    (hholding : e'.registry.holding? uid = none) : Tracks out c ⟨e', d :: s.deeds⟩ uid where
  recorded := by
    dsimp only
    rw [hpasses, hholding]
    rfl
  state := by
    dsimp only
    rw [Registry.state_eq, hholding, Deed.standing, if_pos hundoes]
    rfl
  suits := by
    intro held hheld
    cases hholding.symm.trans hheld

/-- A visit that has left the policy alone, because it was not due. -/
theorem Tracks.early (h : Tracks out c s uid) {p : Policy} (hundoes : d.undoes out uid = false)
    (hpolicy : d.act.policy? uid = some p) {v : Visit} (hvisit : d.visit = some v)
    (hstate : v.state = s.engine.registry.state uid) (hremembers : remembers uid (d.questions out c) = false)
    (hsame : Engine.SameStores s.engine e') : Tracks out c ⟨e', d :: s.deeds⟩ uid where
  recorded := by
    dsimp only
    rw [hsame.passes, hsame.registry, h.recorded]
  state := by
    dsimp only
    simp [Deed.standing, Deed.returned?, hundoes, hpolicy, hvisit, hstate, hsame.registry]
  suits := by
    intro held hheld
    have hlast : Deed.lastRan out c uid (d :: s.deeds) = Deed.lastRan out c uid s.deeds := by
      simp [Deed.lastRan, Deed.ran?, hpolicy, hremembers]
    rw [hlast]
    exact h.suits held (hsame.registry ▸ hheld)

/-- A visit that has served the policy. -/
theorem Tracks.served {ref : PolicyRef} {p : Policy} {previous : PolicyState} {qs : List Question} {v : Visit}
    (hundoes : d.undoes out ref.uid = false) (hpolicy : d.act.policy? ref.uid = some p) (hvisit : d.visit = some v)
    (hremembers : remembers ref.uid (d.questions out c) = true)
    (hserved : Engine.Served c p ref previous s.engine qs v e') {record : PassRecord}
    (hpasses : e'.passes = s.engine.passes.insert ref.uid record) : Tracks out c ⟨e', d :: s.deeds⟩ ref.uid := by
  obtain ⟨held, hholding, hstate, hsuits⟩ := hserved.holding
  exact
    { recorded := by
        dsimp only
        rw [hpasses, Dictionary.get?_insert, if_pos rfl, hholding]
        rfl
      state := by
        dsimp only
        simp [Registry.state_eq, Deed.standing, Deed.returned?, hundoes, hpolicy, hvisit, hholding, hstate]
      suits := by
        intro held' hheld'
        cases hholding.symm.trans hheld'
        exact ⟨p, by simp [Deed.lastRan, Deed.ran?, hpolicy, hremembers], hsuits⟩ }

/-- What every act keeps. -/
structure Invariant (out : Surroundings σ) (c : Settings) (s : Chronicle σ) : Prop where
  kept : s.engine.registry.Kept
  tracks : ∀ uid, Tracks out c s uid
  reported : ∀ d ∈ s.deeds, Reported out c d

theorem Invariant.cons (h : Invariant out c s) (hkept : e'.registry.Kept)
    (htracks : ∀ uid, Tracks out c ⟨e', d :: s.deeds⟩ uid) (hreported : Reported out c d) :
    Invariant out c ⟨e', d :: s.deeds⟩ :=
  ⟨hkept, htracks, List.forall_mem_cons.mpr ⟨hreported, h.reported⟩⟩

/-- A deed that does nothing but let go of policies. -/
theorem Invariant.letGo (h : Invariant out c s) (hkept : e'.registry.Kept)
    (hpolicy : ∀ uid, d.undoes out uid = false → d.act.policy? uid = none)
    (hpasses : ∀ uid, e'.passes.get? uid = if d.undoes out uid then none else s.engine.passes.get? uid)
    (hholding : ∀ uid, e'.registry.holding? uid =
      if d.undoes out uid then none else s.engine.registry.holding? uid)
    (hreported : Reported out c d) : Invariant out c ⟨e', d :: s.deeds⟩ := by
  refine h.cons hkept (fun uid => ?_) hreported
  have hpass := hpasses uid
  have hheld := hholding uid
  cases hundoes : d.undoes out uid with
  | false =>
    rw [hundoes] at hpass hheld
    exact (h.tracks uid).same hundoes (hpolicy uid hundoes) hpass hheld
  | true =>
    rw [hundoes] at hpass hheld
    exact .gone hundoes hpass hheld

theorem policy?_apply {σ : Type} {p : Policy} {ref : PolicyRef} (href : PolicyRef.ofPolicy p = .ok ref) (uid : String) :
    (Act.apply (σ := σ) p).policy? uid = if ref.uid = uid then some p else none := by
  simp [Act.policy?, href, Except.toOption]

theorem Deed.undoes_apply {p : Policy} {ref : PolicyRef} (href : PolicyRef.ofPolicy p = .ok ref) (uid : String)
    (e e' : Engine σ) (visit : Option Visit) :
    Deed.undoes out uid ⟨.apply p, e, e', visit⟩ = (decide (ref.uid = uid) && !out.isLeader e.world) := by
  by_cases huid : ref.uid = uid <;> simp [Deed.undoes, policy?_apply href, huid]

/-- A visit has nothing to do with other policies. -/
theorem Tracks.others {ref : PolicyRef} {p : Policy} (href : PolicyRef.ofPolicy p = .ok ref) (hact : d.act = .apply p)
    (h : Tracks out c s uid) (huid : ref.uid ≠ uid) (hpasses : e'.passes.get? uid = s.engine.passes.get? uid)
    (hholding : e'.registry.holding? uid = s.engine.registry.holding? uid) : Tracks out c ⟨e', d :: s.deeds⟩ uid := by
  have hpolicy : d.act.policy? uid = none := by rw [hact, policy?_apply href, if_neg huid]
  have hundoes : d.undoes out uid = false := by
    unfold Deed.undoes
    rw [hpolicy, hact]
    rfl
  exact h.same hundoes hpolicy hpasses hholding

theorem reported_of_ne (hact : ∀ p, d.act ≠ .apply p) : Reported out c d :=
  fun p _ hp => absurd hp (hact p)

/-- A visit in which no pass was remembered has nothing to report. -/
theorem reported_of_not_remembers {ref : PolicyRef} {p : Policy} (href : PolicyRef.ofPolicy p = .ok ref)
    (hact : d.act = .apply p) (hremembers : remembers ref.uid (d.questions out c) = false) : Reported out c d := by
  intro p' ref' hact' href' hremembers'
  cases hact.symm.trans hact'
  cases href.symm.trans href'
  rw [hremembers] at hremembers'
  cases hremembers'

/-- A visit that has served the policy has reported what there is to report. -/
theorem reported_of_served {ref : PolicyRef} {p : Policy} {e : Engine σ} {qs : List Question} {v : Visit}
    (href : PolicyRef.ofPolicy p = .ok ref) (hqs : Deed.questions out c ⟨.apply p, e, e', some v⟩ = qs)
    (hserved : Engine.Served c p ref (e.registry.state ref.uid) e qs v e') :
    Reported out c ⟨.apply p, e, e', some v⟩ := by
  intro p' ref' hact href' _
  cases hact
  cases href.symm.trans href'
  obtain ⟨held, hholding, hstate, -⟩ := hserved.holding
  have hleft : e'.registry.state ref.uid = v.state := by simp [Registry.state_eq, hholding, hstate]
  rw [hqs]
  exact ⟨v, rfl, hserved.tracked, hleft, hserved.phases, hserved.changes⟩

/-- Visiting a policy. -/
theorem Invariant.apply (hopen : ∀ target world, (out.openWatch target world).1 ≠ .ok true)
    (h : Invariant out c s) {p : Policy} (hrate : c.rateFor p < 2 ^ 53) {result : Except ServeError Visit}
    (happly : s.engine.apply out c p = some (result, e')) :
    Invariant out c ⟨e', ⟨.apply p, s.engine, e', result.toOption⟩ :: s.deeds⟩ := by
  have happlied := Engine.yields_apply hopen hrate h.kept result e' happly
  change Engine.Applied out c p s.engine (Deed.questions out c ⟨.apply p, s.engine, e', result.toOption⟩) result e'
    at happlied
  generalize hqs : Deed.questions out c ⟨.apply p, s.engine, e', result.toOption⟩ = qs at happlied
  cases happlied with
  | @nameless key href =>
    have hpolicy (uid : String) : (Act.apply (σ := σ) p).policy? uid = none := by
      simp [Act.policy?, href, Except.toOption]
    refine h.cons h.kept (fun uid => (h.tracks uid).same ?_ (hpolicy uid) rfl rfl) ?_
    · simp [Deed.undoes, hpolicy]
    · intro p' ref' hact href'
      cases hact
      cases href.symm.trans href'
  | @aside ref qs v href hleads hremembers =>
    refine h.letGo (h.kept.remove ref.uid) (fun uid hkeeps => ?_) (fun uid => ?_) (fun uid => ?_)
      (reported_of_not_remembers href rfl (hqs ▸ hremembers))
    · rw [Deed.undoes_apply href, hleads] at hkeeps
      have huid : ref.uid ≠ uid := by simpa using hkeeps
      exact (policy?_apply href uid).trans (if_neg huid)
    · rw [Deed.undoes_apply href, hleads]
      simpa [eq_comm] using Dictionary.get?_erase s.engine.passes ref.uid uid
    · rw [Deed.undoes_apply href, hleads]
      simpa [eq_comm] using h.kept.sound.holding?_remove ref.uid uid
  | @early ref qs v e' href hleads hremembers hstate hsame =>
    refine h.cons (hsame.registry ▸ h.kept) (fun uid => ?_) (reported_of_not_remembers href rfl (hqs ▸ hremembers))
    by_cases huid : ref.uid = uid
    · subst uid
      refine (h.tracks ref.uid).early ?_ ((policy?_apply href _).trans (if_pos rfl)) rfl hstate (hqs ▸ hremembers) hsame
      simp [Deed.undoes, hleads]
    · exact (h.tracks uid).others href rfl huid (by rw [hsame.passes]) (by rw [hsame.registry])
  | @served ref qs v e' href hleads hremembers hserved hpasses =>
    obtain ⟨record, hpasses⟩ := hpasses
    refine h.cons hserved.changesOnly.kept (fun uid => ?_) ?_
    · by_cases huid : ref.uid = uid
      · subst uid
        refine .served ?_ ((policy?_apply href _).trans (if_pos rfl)) rfl (hqs ▸ hremembers) hserved hpasses
        simp [Deed.undoes, hleads]
      · refine (h.tracks uid).others href rfl huid ?_ (hserved.changesOnly.others (Ne.symm huid))
        rw [hpasses, Dictionary.get?_insert, if_neg huid]
    · exact reported_of_served href hqs hserved

/-- Whatever is done keeps the invariant. -/
theorem Invariant.step (hopen : ∀ target world, (out.openWatch target world).1 ≠ .ok true) (h : Invariant out c s)
    {a : Act σ} (hrate : ∀ p, a = .apply p → c.rateFor p < 2 ^ 53) {s' : Chronicle σ}
    (hstep : s.step out c a = some s') : Invariant out c s' := by
  obtain ⟨⟨visit, e'⟩, hact, rfl⟩ := Option.map_eq_some_iff.mp hstep
  cases a with
  | apply p =>
    obtain ⟨⟨result, e''⟩, happly, heq⟩ := Option.map_eq_some_iff.mp hact
    cases heq
    exact h.apply hopen (hrate p rfl) happly
  | teardown k =>
    cases hact
    refine h.letGo (h.kept.remove k) (fun _ _ => rfl) (fun uid => ?_) (fun uid => ?_)
      (reported_of_ne fun _ h => by cases h)
    · simpa [Deed.undoes, eq_comm] using Dictionary.get?_erase s.engine.passes k uid
    · simpa [Deed.undoes, eq_comm] using h.kept.sound.holding?_remove k uid
  | prune live =>
    cases hact
    refine h.letGo (h.kept.removeAll _) (fun _ _ => rfl) (fun uid => ?_) (fun uid => ?_) (reported_of_ne fun _ h => by cases h)
    · simpa [Deed.undoes] using Dictionary.get?_filter s.engine.passes live.contains uid
    · simpa [Deed.undoes] using h.kept.sound.holding?_prune live uid
  | meanwhile world =>
    cases hact
    exact h.letGo h.kept (fun _ _ => rfl) (fun _ => rfl) (fun _ => rfl) (reported_of_ne fun _ h => by cases h)
  | cancelRoot =>
    cases hact
    have hkept : Registry.Kept { s.engine.registry with rootCancelled := true } :=
      { sound := h.kept.sound.sameWatches ⟨rfl, rfl, fun _ => rfl, fun _ => rfl, rfl⟩
        metered := h.kept.metered.of_same id rfl
        fitted := h.kept.fitted }
    exact h.letGo hkept (fun _ _ => rfl) (fun _ => rfl) (fun _ => rfl) (reported_of_ne fun _ h => by cases h)

/-! ## §4 Runs -/

theorem Invariant.run (hopen : ∀ target world, (out.openWatch target world).1 ≠ .ok true) (h : Invariant out c s)
    {acts : List (Act σ)} (hrate : ∀ p, .apply p ∈ acts → c.rateFor p < 2 ^ 53) {s' : Chronicle σ}
    (hrun : s.run out c acts = some s') : Invariant out c s' := by
  induction acts generalizing s with
  | nil =>
    cases hrun
    exact h
  | cons a acts ih =>
    rw [Chronicle.run, List.foldlM_cons] at hrun
    obtain ⟨next, hstep, hrest⟩ := Option.bind_eq_some_iff.mp hrun
    have hnext : Invariant out c next := h.step hopen (fun p ha => hrate p (ha ▸ List.mem_cons_self)) hstep
    exact ih hnext (fun p hp => hrate p (List.mem_cons_of_mem _ hp)) hrest

theorem invariant_begin (world : σ) : Invariant out c ⟨{ world }, []⟩ where
  kept := Registry.kept_empty
  tracks uid := ⟨rfl, rfl, fun _ h => by cases h⟩
  reported d hd := absurd hd List.not_mem_nil

/-- A policy that is in a state has what suits the one for which a pass was last run. -/
theorem Tracks.exists_holding (h : Tracks out c s uid) (htracked : s.engine.registry.state uid ≠ .notTracked) :
    ∃ p held, Deed.lastRan out c uid s.deeds = some p ∧ s.engine.registry.holding? uid = some held ∧
      held.state = s.engine.registry.state uid ∧ Engine.Suits c p uid held := by
  rw [Registry.state_eq] at htracked ⊢
  cases hholding : s.engine.registry.holding? uid with
  | none =>
    rw [hholding] at htracked
    exact absurd rfl htracked
  | some held =>
    obtain ⟨p, hlast, hsuits⟩ := h.suits held hholding
    exact ⟨p, held, hlast, rfl, rfl, hsuits⟩

theorem Invariant.forPolicy (h : Invariant out c s) (uid : String) : Lifecycle out c s uid where
  recorded := by
    rw [(h.tracks uid).recorded]
    exact Option.isSome_map ..
  state := (h.tracks uid).state
  active := by
    intro hactive
    obtain ⟨p, held, hlast, hholding, hstate, hsuits⟩ := (h.tracks uid).exists_holding (by simp [hactive])
    obtain ⟨target, b, htarget, hwatch, hlimiter, hrate⟩ := hsuits.active (hstate.trans hactive)
    obtain ⟨i, hs, b', hhandles, -, -, hlive, hsame, -, hbucket, hlimiter'⟩ :=
      Registry.exists_handles h.kept hholding hwatch
    cases hlimiter.symm.trans hlimiter'
    have hown : s.engine.registry.IsLive uid hs.watch := ⟨_, hlive, rfl, rfl⟩
    have hlives (w : Nat) : s.engine.registry.IsLive uid w ↔ w = hs.watch :=
      ⟨fun hw => h.kept.sound.isLive_unique hw hown, fun hw => hw ▸ hown⟩
    refine ⟨p, hs, b, hlast, hhandles, hsame ▸ htarget, hlives, ?_, hbucket, hrate⟩
    simp [Registry.isStopped, hlive]
  paused := by
    intro hpaused
    obtain ⟨p, held, hlast, hholding, hstate, hsuits⟩ := (h.tracks uid).exists_holding (by simp [hpaused])
    obtain ⟨target, htarget, hwatch⟩ := hsuits.paused (hstate.trans hpaused)
    refine ⟨p, target, hlast, htarget, fun t ht => ?_⟩
    obtain ⟨i, hslot, rfl⟩ := Option.map_eq_some_iff.mp hholding
    obtain ⟨w, hw, rfl⟩ := Option.map_eq_some_iff.mp ht
    rw [hslot] at hw
    exact hwatch w hw

/-- However a reconciler is used, one act after the other: after every run the records, the registry and the reports
agree with each other and with what was done. Watches are stopped by the reconciler alone, or all together, and a rate
fits into the 32 bits that policies and settings have for it. -/
theorem lifecycle (hopen : ∀ target world, (out.openWatch target world).1 ≠ .ok true) (world : σ) {acts : List (Act σ)}
    (hrate : ∀ p, .apply p ∈ acts → c.rateFor p < UInt32.size) {s : Chronicle σ}
    (hrun : run out c ⟨{ world }, []⟩ acts = some s) :
    (∀ uid, Lifecycle out c s uid) ∧ ∀ d ∈ s.deeds, Reported out c d := by
  have hbits : UInt32.size ≤ 2 ^ 53 := by decide
  have h : Invariant out c s :=
    (invariant_begin world).run hopen (fun p hp => Nat.lt_of_lt_of_le (hrate p hp) hbits) hrun
  exact ⟨h.forPolicy, h.reported⟩

/-- A rehearsal in which watches that open are not stopped right away. -/
def steady : Surroundings Rehearsal :=
  { Rehearsal.surroundings with
    openWatch := fun target w =>
      match w.refusal target with
      | some e => (.error e, w)
      | none => (.ok false, w) }

/-- A policy that is visited is active, with all that this takes. -/
theorem lifecycle_hourly :
    ∃ s, run steady {} ⟨{ world := Engine.onePod.world }, []⟩ [.apply Engine.hourly] = some s ∧
      s.engine.registry.state "p-1" = .active ∧ (∀ uid, Lifecycle steady {} s uid) ∧
      ∀ d ∈ s.deeds, Reported steady {} d := by
  have hopen (target : WatchTarget) (w : Rehearsal) : (steady.openWatch target w).1 ≠ .ok true := by
    unfold steady
    dsimp only
    split <;> nofun
  have hrate (p : Policy) (hp : .apply p ∈ [Act.apply (σ := Rehearsal) Engine.hourly]) :
      Settings.rateFor {} p < UInt32.size := by
    cases List.mem_singleton.mp hp
    decide
  have hactive : (Engine.apply steady {} Engine.hourly { world := Engine.onePod.world }).map
      (fun r => r.2.registry.state "p-1") = some .active := by
    unfold Engine.apply Reconciling.apply Reconciling.visit
    rw [Engine.target_hourly]
    decide +kernel
  obtain ⟨⟨result, e'⟩, happly, hstate⟩ := Option.map_eq_some_iff.mp hactive
  have hrun : run steady {} ⟨{ world := Engine.onePod.world }, []⟩ [.apply Engine.hourly] =
      some ⟨e', [⟨.apply Engine.hourly, { world := Engine.onePod.world }, e', result.toOption⟩]⟩ := by
    rw [run, List.foldlM_cons, step, Engine.act, happly]
    rfl
  exact ⟨_, hrun, hstate, lifecycle hopen Engine.onePod.world hrate hrun⟩

end Chronicle

end Reaper
