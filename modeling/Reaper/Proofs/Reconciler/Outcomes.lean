import Reaper.Proofs.Reconciler.Questions
import Reaper.Proofs.Registry.Holdings
import Reaper.Reconciler.Engine

/-!
What a visit leaves.

A visit that serves its policy ends in a state. It enters this state, reports it if it is another one, and writes it
into the status (`Ended`). When it is active the policy has its watch and its limiter, and when it is paused no other watch
(`Suits`). What is held for other policies does not change (`Served`).

  §1 Questions — what the questions of a visit say about its state.
  §2 Endings   — the three ways in which a visit that serves its policy ends.
  §3 Visits    — what is held for the policy after each part of a visit.
-/

namespace Reaper

/-! ## §1 Questions -/

namespace Question

/-- The phases in the statuses that are written. -/
def phases (qs : List Question) : List (Option PolicyPhase) :=
  qs.filterMap fun
    | .writeStatus _ s => some s.phase
    | _ => none

/-- The changes of phase that are reported. -/
def changes (qs : List Question) : List Notice :=
  qs.filterMap fun
    | .notify _ n => if n.reason = "PhaseChanged" then some n else none
    | _ => none

/-- A pass of the policy is remembered. -/
def remembers (uid : String) (qs : List Question) : Bool :=
  qs.any fun
    | .remember k _ => k = uid
    | _ => false

/-- The questions say nothing about the phase of a policy. -/
structure Quiet (qs : List Question) : Prop where
  phases : phases qs = []
  changes : changes qs = []

theorem phases_append (qs qs' : List Question) : phases (qs ++ qs') = phases qs ++ phases qs' := List.filterMap_append

theorem changes_append (qs qs' : List Question) : changes (qs ++ qs') = changes qs ++ changes qs' :=
  List.filterMap_append

theorem Quiet.nil : Quiet [] := ⟨rfl, rfl⟩

theorem Quiet.append {qs qs' : List Question} (h : Quiet qs) (h' : Quiet qs') : Quiet (qs ++ qs') where
  phases := by rw [phases_append, h.phases, h'.phases]; rfl
  changes := by rw [changes_append, h.changes, h'.changes]; rfl

end Question

namespace Engine

open Program (Yields)
open Question (Quiet phases changes remembers)
open Registry (ChangesOnly Kept)

variable {σ : Type} {out : Surroundings σ} {c : Settings} {p : Policy} {ref : PolicyRef}

/-- Nothing has changed but the world outside. -/
structure SameStores (e e' : Engine σ) : Prop where
  registry : e'.registry = e.registry
  passes : e'.passes = e.passes

theorem SameStores.refl (e : Engine σ) : SameStores e e := ⟨rfl, rfl⟩

theorem SameStores.trans {e e' e'' : Engine σ} (h : SameStores e e') (h' : SameStores e' e'') : SameStores e e'' :=
  ⟨h'.registry.trans h.registry, h'.passes.trans h.passes⟩

/-! ## §2 Endings -/

/-- The part of a program changes nothing in the stores, and says nothing about the phase. -/
def IsAside (out : Surroundings σ) (c : Settings) {α : Type} (a : Reconciling α) : Prop :=
  ∀ e, Yields (answer out c) a e fun qs _ e' => Quiet qs ∧ SameStores e e'

theorem isAside_pure {α : Type} (a : α) : IsAside out c (pure a : Reconciling α) :=
  fun e => .pure ⟨.nil, .refl e⟩

theorem yields_require {α : Type} {a : Option α} {e : Engine σ} {R : List Question → α → Engine σ → Prop}
    (h : ∀ value, a = some value → R [] value e) : Yields (answer out c) (Reconciling.require a) e R := by
  cases a with
  | some value => exact .pure (h value rfl)
  | none =>
    intro value e' hrun
    cases hrun

theorem isAside_notify {n : Notice} (hn : n.reason ≠ "PhaseChanged") :
    IsAside out c (Reconciling.ask (.notify ref n)) := by
  intro e
  refine .query fun _ e' h => ?_
  cases h
  exact ⟨⟨rfl, by simp [changes, hn]⟩, rfl, rfl⟩

theorem isAside_notifyAll {notices : List Notice} (h : ∀ n ∈ notices, n.reason ≠ "PhaseChanged") :
    IsAside out c (Reconciling.notifyAll ref notices) := by
  induction notices with
  | nil => exact isAside_pure ()
  | cons n rest ih =>
    obtain ⟨hn, hrest⟩ := List.forall_mem_cons.mp h
    intro e
    refine .bind ((isAside_notify hn e).mono fun qs _ e' hfirst => ?_)
    refine (ih hrest e').mono fun qs' _ e'' hsecond => ?_
    exact ⟨hfirst.1.append hsecond.1, hfirst.2.trans hsecond.2⟩

/-- The notices about a pass say nothing about the phase. -/
theorem reason_of_mem_notices {r : PassResult} : ∀ n ∈ r.notices, n.reason ≠ "PhaseChanged" := by
  intro n hn
  unfold PassResult.notices at hn
  rw [List.mem_append] at hn
  rcases hn with hn | hn <;> split at hn
  · obtain rfl := List.mem_singleton.mp hn
    simp [Notice.resourceDeleted]
  · cases hn
  · obtain rfl := List.mem_singleton.mp hn
    simp [Notice.dryRun]
  · cases hn

/-- A visit that began in state `previous` has ended in state `s`. -/
structure Ended (ref : PolicyRef) (previous s : PolicyState) (e : Engine σ) (qs : List Question) (v : Visit)
    (e' : Engine σ) : Prop where
  state : v.state = s
  phases : phases qs = [s.phase?]
  changes : changes qs = if previous = s then [] else [.phaseChanged previous s]
  registry : e'.registry = e.registry.setState ref.uid s
  passes : e'.passes = e.passes

/-- Entering a state and reporting it. -/
theorem yields_transition (previous : PolicyState) (s : PolicyState) (e : Engine σ) :
    Yields (answer out c) (Reconciling.transition ref previous s) e fun qs _ e' =>
      phases qs = [] ∧ changes qs = (if previous = s then [] else [.phaseChanged previous s]) ∧
        e'.registry = e.registry.setState ref.uid s ∧ e'.passes = e.passes := by
  refine .ask fun _ e₁ h => ?_
  cases h
  by_cases heq : previous = s
  · simp only [heq, ne_eq, not_true_eq_false, if_false, if_true]
    exact .pure ⟨rfl, rfl, rfl, rfl⟩
  · simp only [heq, ne_eq, not_false_eq_true, if_false, if_true]
    refine .query fun _ e₂ h => ?_
    cases h
    exact ⟨rfl, rfl, rfl, rfl⟩

/-- Writing a state into the status. -/
theorem yields_writeStatus (s : PolicyState) (r : PassResult) (message : String) (e : Engine σ) :
    Yields (answer out c) (Reconciling.writeStatus c p ref s r message) e fun qs _ e' =>
      phases qs = [s.phase?] ∧ changes qs = [] ∧ SameStores e e' := by
  refine .ask fun now e₁ h => ?_
  cases h
  refine .bind (yields_require fun status hstatus => ?_)
  refine .query fun _ e₂ h => ?_
  cases h
  obtain ⟨total, -, rfl⟩ := Option.map_eq_some_iff.mp hstatus
  exact ⟨rfl, rfl, rfl, rfl⟩

/-- The end of a visit: it enters a state, and writes it into the status. -/
theorem yields_ending {between : Reconciling Unit} (hbetween : IsAside out c between) (previous s : PolicyState)
    (r : PassResult) (message : String) (result : Option PassResult) (after : Duration) (e : Engine σ) :
    Yields (answer out c)
      (do
        Reconciling.transition ref previous s
        between
        Reconciling.writeStatus c p ref s r message
        pure (⟨s, result, after⟩ : Visit))
      e (Ended ref previous s e) := by
  refine .bind ((yields_transition previous s e).mono fun qs _ e₁ hentered => ?_)
  obtain ⟨hphases, hchanges, hregistry, hpasses⟩ := hentered
  refine .bind ((hbetween e₁).mono fun qs₁ _ e₂ haside => ?_)
  obtain ⟨hquiet, hsame⟩ := haside
  refine .bind ((yields_writeStatus s r message e₂).mono fun qs₂ _ e₃ hwritten => ?_)
  obtain ⟨hphases', hchanges', hsame'⟩ := hwritten
  refine .pure ⟨rfl, ?_, ?_, ?_, ?_⟩
  · simp [Question.phases_append, hphases, hquiet.phases, hphases']
  · simp [Question.changes_append, hchanges, hquiet.changes, hchanges']
  · rw [hsame'.registry, hsame.registry, hregistry]
  · rw [hsame'.passes, hsame.passes, hpasses]

/-- The end of a visit of a policy that cannot be served. -/
theorem yields_fail (previous : PolicyState) (err : ServeError) (e : Engine σ) :
    Yields (answer out c) (Reconciling.fail c p ref previous err) e (Ended ref previous .error e) :=
  yields_ending (isAside_notify (by simp [Notice.watchFailed])) previous .error {} err.message none c.gcInterval e

/-! ## §3 Visits -/

/-- What is held for a policy suits it, in the state that it is in. -/
structure Suits (c : Settings) (p : Policy) (uid : String) (held : Holding) : Prop where
  active : held.state = .active → ∃ target b, WatchTarget.ofPolicy? p = some (.ok target) ∧
    held.watch = some { owner := uid, target, cancelled := false } ∧ held.limiter = some b ∧ b.rate = c.rateFor p
  paused : held.state = .paused → ∃ target, WatchTarget.ofPolicy? p = some (.ok target) ∧
    ∀ w, held.watch = some w → w.target = target

/-- A visit that began in state `previous` has served the policy. -/
structure Served (c : Settings) (p : Policy) (ref : PolicyRef) (previous : PolicyState) (e : Engine σ)
    (qs : List Question) (v : Visit) (e' : Engine σ) : Prop where
  changesOnly : ChangesOnly ref.uid e.registry e'.registry
  tracked : v.state ≠ .notTracked
  holding : ∃ held, e'.registry.holding? ref.uid = some held ∧ held.state = v.state ∧ Suits c p ref.uid held
  phases : phases qs = [v.state.phase?]
  changes : changes qs = if previous = v.state then [] else [.phaseChanged previous v.state]

/-- A visit that ends in a state in which what is held for the policy suits it. -/
theorem served_of_ended {previous s : PolicyState} (hs : s ≠ .notTracked) {e e₁ e' : Engine σ} {qs qs' : List Question}
    {v : Visit} (hquiet : Quiet qs) (hchanges : ChangesOnly ref.uid e.registry e₁.registry)
    (hpasses : e₁.passes = e.passes)
    (hsuits : Suits c p ref.uid { (e₁.registry.holding? ref.uid).getD {} with state := s })
    (h : Ended ref previous s e₁ qs' v e') :
    Served c p ref previous e (qs ++ qs') v e' ∧ e'.passes = e.passes := by
  obtain ⟨hentered, hholding⟩ := Registry.setState_spec hchanges.kept ref.uid hs
  obtain rfl := h.state
  refine ⟨⟨?_, hs, ⟨_, h.registry ▸ hholding, rfl, hsuits⟩, ?_, ?_⟩, h.passes.trans hpasses⟩
  · rw [h.registry]
    exact hchanges.trans hentered
  · rw [Question.phases_append, hquiet.phases, h.phases]
    rfl
  · rw [Question.changes_append, hquiet.changes, h.changes]
    rfl

theorem suits_error (held : Holding) (uid : String) : Suits c p uid { held with state := .error } :=
  ⟨nofun, nofun⟩

/-- A visit that ends because the policy cannot be served. -/
theorem yields_failed {previous : PolicyState} {err : ServeError} {e e₁ : Engine σ} {qs : List Question}
    (hquiet : Quiet qs) (hchanges : ChangesOnly ref.uid e.registry e₁.registry) (hpasses : e₁.passes = e.passes) :
    Yields (answer out c) (Reconciling.fail c p ref previous err) e₁ fun qs' v e' =>
      Served c p ref previous e (qs ++ qs') v e' ∧ e'.passes = e.passes :=
  (yields_fail previous err e₁).mono fun _ _ _ hended =>
    served_of_ended (s := .error) nofun hquiet hchanges hpasses (suits_error _ _) hended

theorem rateFor_pos (c : Settings) (p : Policy) : 0 < c.rateFor p := by
  unfold Settings.rateFor Bucket.effectiveRate
  split
  · split <;> omega
  · omega

/-- A watch that was ensured is there. -/
theorem ensured_of_answer (hopen : ∀ target world, (out.openWatch target world).1 ≠ .ok true)
    (hrate : c.rateFor p < 2 ^ 53) {e e₁ : Engine σ} (hkept : Kept e.registry) {target : WatchTarget}
    {result : Except ServeError EnsureOutcome}
    (h : answer out c (.ensure ref.uid target (c.rateFor p)) e = some (result, e₁)) :
    ChangesOnly ref.uid e.registry e₁.registry ∧ e₁.passes = e.passes ∧ ∀ outcome, result = .ok outcome →
      ∃ (b : Bucket) (s : PolicyState), b.rate = c.rateFor p ∧ e₁.registry.holding? ref.uid =
        some ⟨some { owner := ref.uid, target, cancelled := false }, some b, s⟩ := by
  have hspec := Registry.ensure_spec hkept hopen ref.uid target (rateFor_pos c p) hrate (e.moment out) e.world
  cases h
  exact ⟨hspec.1, rfl, hspec.2⟩

/-- A pass leaves the limiter of its policy at its rate, and nothing else is changed. -/
theorem pass_of_answer {e e₁ : Engine σ} {hs : Handles} {r : PassResult}
    (h : answer out c (.evaluate p hs) e = some (r, e₁)) :
    ∃ b, e₁.registry = e.registry.setLimiter hs.limiter b ∧ e₁.passes = e.passes ∧
      b.rate = ((e.registry.limiters[hs.limiter]?).getD default).rate := by
  obtain ⟨v, hv, heq⟩ := Option.map_eq_some_iff.mp h
  cases heq
  exact ⟨v.bucket, rfl, rfl, Evaluator.rate_of_evaluate hv⟩

/-- A visit of a policy that is to be active. -/
theorem yields_visitActive (hopen : ∀ target world, (out.openWatch target world).1 ≠ .ok true)
    (hrate : c.rateFor p < 2 ^ 53) {e : Engine σ} (hkept : Kept e.registry) {target : WatchTarget}
    (htarget : WatchTarget.ofPolicy? p = some (.ok target)) (previous : PolicyState) :
    Yields (answer out c) (Reconciling.visitActive c p ref previous target) e fun qs v e' =>
      Served c p ref previous e qs v e' ∧ e'.passes = e.passes := by
  refine .ask fun result e₁ hensure => ?_
  obtain ⟨hchanges, hpasses, hensured⟩ := ensured_of_answer hopen hrate hkept hensure
  have hquiet : Quiet [.ensure ref.uid target (c.rateFor p)] := ⟨rfl, rfl⟩
  cases result with
  | error err => exact yields_failed hquiet hchanges hpasses
  | ok outcome =>
    obtain ⟨b, s, hb, hholding⟩ := hensured outcome rfl
    obtain ⟨i, hs, b', hhandles, hslot, hwatch, -, -, hlimiter, hbucket, hsame⟩ :=
      Registry.exists_handles hchanges.kept hholding rfl
    obtain rfl : b = b' := Option.some.inj hsame
    refine .ask fun handles e₂ hanswer => ?_
    obtain ⟨rfl, rfl⟩ := Prod.mk.inj (Option.some.inj hanswer)
    rw [hhandles]
    refine .ask fun r e₃ hpass => ?_
    obtain ⟨b', hregistry, hpasses', hrate'⟩ := pass_of_answer hpass
    rw [hbucket] at hrate'
    obtain ⟨hpassed, hholding'⟩ := Registry.setLimiter_spec hchanges.kept hslot hlimiter hbucket hrate'
    rw [← hregistry] at hpassed hholding'
    rw [Registry.holding?_of_slot? hslot] at hholding
    have hsuits : Suits c p ref.uid { (e₃.registry.holding? ref.uid).getD {} with state := .active } := by
      rw [hholding', Option.some.inj hholding]
      exact ⟨fun _ => ⟨target, b', htarget, rfl, rfl, hrate'.trans hb⟩, nofun⟩
    refine (yields_ending (isAside_notifyAll reason_of_mem_notices) previous .active r r.summary (some r) c.gcInterval
      e₃).mono fun qs v e' hended => ?_
    have hquiet' : Quiet [.ensure ref.uid target (c.rateFor p), .handles ref.uid, .evaluate p hs] := ⟨rfl, rfl⟩
    exact served_of_ended (s := .active) nofun hquiet' (hchanges.trans hpassed) (hpasses'.trans hpasses) hsuits hended

/-- A paused policy has no watch on another target. -/
theorem yields_pausedHandles (hopen : ∀ target world, (out.openWatch target world).1 ≠ .ok true)
    (hrate : c.rateFor p < 2 ^ 53) {e : Engine σ} (hkept : Kept e.registry) (target : WatchTarget) :
    Yields (answer out c) (Reconciling.pausedHandles c p ref target) e fun qs result e' =>
      Quiet qs ∧ ChangesOnly ref.uid e.registry e'.registry ∧ e'.passes = e.passes ∧
        ∀ handles, result = .ok handles → ∀ held w, e'.registry.holding? ref.uid = some held →
          held.watch = some w → w.target = target := by
  -- the watch that is held is the one that the handles tell of
  have htold {held : Holding} {w : Watch} (hheld : e.registry.holding? ref.uid = some held)
      (hw : held.watch = some w) : ∃ hs, e.registry.handles? ref.uid = some hs ∧ hs.target = w.target := by
    obtain ⟨-, hs, -, hhandles, -, -, -, htarget, -⟩ := Registry.exists_handles hkept hheld hw
    exact ⟨hs, hhandles, htarget⟩
  refine .ask fun handles e₁ hanswer => ?_
  obtain ⟨rfl, rfl⟩ := Prod.mk.inj (Option.some.inj hanswer)
  cases hhandles : e.registry.handles? ref.uid with
  | none =>
    refine .pure ⟨⟨rfl, rfl⟩, .refl hkept _, rfl, fun _ _ held w hheld hw => ?_⟩
    obtain ⟨hs, hsome, -⟩ := htold hheld hw
    cases hhandles.symm.trans hsome
  | some h =>
    dsimp only
    split
    · rename_i hsame
      refine .pure ⟨⟨rfl, rfl⟩, .refl hkept _, rfl, fun _ _ held w hheld hw => ?_⟩
      obtain ⟨hs, hsome, htarget⟩ := htold hheld hw
      cases hhandles.symm.trans hsome
      exact htarget.symm.trans hsame
    · refine .ask fun result e₂ hensure => ?_
      obtain ⟨hchanges, hpasses, hensured⟩ := ensured_of_answer hopen hrate hkept hensure
      cases result with
      | error err => exact .pure ⟨⟨rfl, rfl⟩, hchanges, hpasses, nofun⟩
      | ok outcome =>
        obtain ⟨b, s, -, hholding⟩ := hensured outcome rfl
        refine .ask fun handles e₃ hanswer => ?_
        obtain ⟨rfl, rfl⟩ := Prod.mk.inj (Option.some.inj hanswer)
        refine .pure ⟨⟨rfl, rfl⟩, hchanges, hpasses, fun _ _ held w hheld hw => ?_⟩
        cases hholding.symm.trans hheld
        cases hw
        rfl

theorem isAside_scan (hs : Handles) : IsAside out c (Reconciling.scan p hs) := by
  intro e
  refine .ask fun now e₁ h => ?_
  cases h
  refine .ask fun snapshot e₂ h => ?_
  cases h
  exact .pure ⟨⟨rfl, rfl⟩, rfl, rfl⟩

/-- A visit of a policy that is to be paused. -/
theorem yields_visitPaused (hopen : ∀ target world, (out.openWatch target world).1 ≠ .ok true)
    (hrate : c.rateFor p < 2 ^ 53) {e : Engine σ} (hkept : Kept e.registry) {target : WatchTarget}
    (htarget : WatchTarget.ofPolicy? p = some (.ok target)) (previous : PolicyState) :
    Yields (answer out c) (Reconciling.visitPaused c p ref previous target) e fun qs v e' =>
      Served c p ref previous e qs v e' ∧ e'.passes = e.passes := by
  refine .bind ((yields_pausedHandles hopen hrate hkept target).mono fun qs result e₁ hhandles => ?_)
  obtain ⟨hquiet, hchanges, hpasses, hwatch⟩ := hhandles
  cases result with
  | error err => exact yields_failed hquiet hchanges hpasses
  | ok handles =>
    have hsuits : Suits c p ref.uid { (e₁.registry.holding? ref.uid).getD {} with state := .paused } := by
      refine ⟨nofun, fun _ => ⟨target, htarget, fun w hw => ?_⟩⟩
      cases hholding : e₁.registry.holding? ref.uid with
      | none =>
        rw [hholding] at hw
        cases hw
      | some held =>
        rw [hholding] at hw
        exact hwatch handles rfl held w hholding hw
    -- the survey of what the watch knows of, if there is one
    have hrest {survey : Reconciling PassResult} (hsurvey : IsAside out c survey) :
        Yields (answer out c)
          (do
            let result ← survey
            Reconciling.transition ref previous .paused
            Reconciling.writeStatus c p ref .paused result "Policy is paused; deletions are suspended"
            pure (⟨.paused, some result, c.gcInterval⟩ : Visit))
          e₁ fun qs' v e' => Served c p ref previous e (qs ++ qs') v e' ∧ e'.passes = e.passes := by
      refine .bind ((hsurvey e₁).mono fun qs₁ result e₂ haside => ?_)
      obtain ⟨hquiet', hsame⟩ := haside
      refine (yields_ending (isAside_pure ()) previous .paused result _ (some result) c.gcInterval e₂).mono
        fun qs' v e' hended => ?_
      rw [← hsame.registry] at hchanges hsuits
      rw [← List.append_assoc]
      have hpasses' : e₂.passes = e.passes := hsame.passes.trans hpasses
      exact served_of_ended (s := .paused) nofun (hquiet.append hquiet') hchanges hpasses' hsuits hended
    cases handles with
    | some hs => exact hrest (isAside_scan hs)
    | none => exact hrest (isAside_pure _)

/-- A visit of a policy whose target has been determined. -/
theorem yields_visitTarget (hopen : ∀ target world, (out.openWatch target world).1 ≠ .ok true)
    (hrate : c.rateFor p < 2 ^ 53) {e : Engine σ} (hkept : Kept e.registry)
    {result : Except TargetError WatchTarget} (hresult : WatchTarget.ofPolicy? p = some result)
    (previous : PolicyState) :
    Yields (answer out c) (Reconciling.visitTarget c p ref previous result) e fun qs v e' =>
      Served c p ref previous e qs v e' ∧ e'.passes = e.passes := by
  cases result with
  | error err => exact yields_failed .nil (.refl hkept _) rfl
  | ok target =>
    unfold Reconciling.visitTarget
    dsimp only
    split
    · exact yields_visitPaused hopen hrate hkept hresult previous
    · exact yields_visitActive hopen hrate hkept hresult previous

/-- What comes before and says nothing. -/
theorem Served.after {previous : PolicyState} {e e₁ e' : Engine σ} {qs qs' : List Question} {v : Visit}
    (h : Served c p ref previous e₁ qs' v e') (hquiet : Quiet qs) (hregistry : e₁.registry = e.registry) :
    Served c p ref previous e (qs ++ qs') v e' where
  changesOnly := hregistry ▸ h.changesOnly
  tracked := h.tracked
  holding := h.holding
  phases := by
    rw [Question.phases_append, hquiet.phases, h.phases]
    rfl
  changes := by
    rw [Question.changes_append, hquiet.changes, h.changes]
    rfl

/-- A visit of a policy that is due. -/
theorem yields_visit (hopen : ∀ target world, (out.openWatch target world).1 ≠ .ok true)
    (hrate : c.rateFor p < 2 ^ 53) {e : Engine σ} (hkept : Kept e.registry) (previous : PolicyState) :
    Yields (answer out c) (Reconciling.visit c p ref previous) e fun qs v e' =>
      remembers ref.uid qs = true ∧ Served c p ref previous e qs v e' ∧
        ∃ record, e'.passes = e.passes.insert ref.uid record := by
  refine .ask fun now e₁ hnow => ?_
  refine .ask fun _ e₂ hremember => ?_
  have hstores : e₂.registry = e.registry ∧ e₂.passes = e.passes.insert ref.uid ⟨p.spec, now⟩ := by
    cases hnow
    cases hremember
    exact ⟨rfl, rfl⟩
  have hrest {qs : List Question} {e₃ : Engine σ} (hquiet : Quiet qs) (hsame : SameStores e₂ e₃) :
      Yields (answer out c) (Reconciling.require (WatchTarget.ofPolicy? p) >>= Reconciling.visitTarget c p ref previous)
        e₃ fun qs' v e' => remembers ref.uid (.now :: .remember ref.uid ⟨p.spec, now⟩ :: (qs ++ qs')) = true ∧
          Served c p ref previous e (.now :: .remember ref.uid ⟨p.spec, now⟩ :: (qs ++ qs')) v e' ∧
            ∃ record, e'.passes = e.passes.insert ref.uid record := by
    have hregistry : e₃.registry = e.registry := hsame.registry.trans hstores.1
    have hbefore : Quiet (.now :: .remember ref.uid ⟨p.spec, now⟩ :: qs) := ⟨hquiet.phases, hquiet.changes⟩
    refine .bind (yields_require fun result hresult => ?_)
    refine (yields_visitTarget hopen hrate (hregistry ▸ hkept) hresult previous).mono fun qs' v e' hserved => ?_
    obtain ⟨hserved, hpasses⟩ := hserved
    exact ⟨by simp [remembers], hserved.after hbefore hregistry, _, hpasses.trans (hsame.passes.trans hstores.2)⟩
  dsimp only
  split
  · refine .bind ((isAside_notify (by simp [Notice.invalidPolicy]) e₂).mono fun qs _ e₃ haside => ?_)
    exact hrest haside.1 haside.2
  · exact (hrest Quiet.nil (SameStores.refl e₂) :)

/-- A policy is due or not. -/
theorem yields_wait (e : Engine σ) :
    Yields (answer out c) (Reconciling.wait c p ref) e fun qs _ e' =>
      Quiet qs ∧ SameStores e e' ∧ remembers ref.uid qs = false := by
  refine .ask fun record e₁ h => ?_
  cases h
  cases e.passes.get? ref.uid with
  | none => exact .pure ⟨⟨rfl, rfl⟩, .refl e, rfl⟩
  | some record =>
    dsimp only
    split
    · refine .ask fun now e₂ h => ?_
      cases h
      exact .pure ⟨⟨rfl, rfl⟩, ⟨rfl, rfl⟩, rfl⟩
    · exact .pure ⟨⟨rfl, rfl⟩, .refl e, rfl⟩

/-- What a visit of a policy has come to, from its questions, its value and what it leaves. -/
inductive Applied (out : Surroundings σ) (c : Settings) (p : Policy) (e : Engine σ) :
    List Question → Except ServeError Visit → Engine σ → Prop where
  /-- the policy has no identity -/
  | nameless {key : String} (href : PolicyRef.ofPolicy p = .error key) :
    Applied out c p e [] (.error (.missingKey key)) e
  /-- this replica does not lead, and lets go of the policy -/
  | aside {ref : PolicyRef} {qs : List Question} {v : Visit} (href : PolicyRef.ofPolicy p = .ok ref)
    (hleads : out.isLeader e.world = false) (hremembers : remembers ref.uid qs = false) :
    Applied out c p e qs (.ok v) (e.teardown ref.uid).2
  /-- the policy is not due -/
  | early {ref : PolicyRef} {qs : List Question} {v : Visit} {e' : Engine σ} (href : PolicyRef.ofPolicy p = .ok ref)
    (hleads : out.isLeader e.world = true) (hremembers : remembers ref.uid qs = false)
    (hstate : v.state = e.registry.state ref.uid) (hsame : SameStores e e') : Applied out c p e qs (.ok v) e'
  /-- the policy has been served -/
  | served {ref : PolicyRef} {qs : List Question} {v : Visit} {e' : Engine σ} (href : PolicyRef.ofPolicy p = .ok ref)
    (hleads : out.isLeader e.world = true) (hremembers : remembers ref.uid qs = true)
    (hserved : Served c p ref (e.registry.state ref.uid) e qs v e')
    (hpasses : ∃ record, e'.passes = e.passes.insert ref.uid record) : Applied out c p e qs (.ok v) e'

/-- What one visit of a policy comes to. -/
theorem yields_apply (hopen : ∀ target world, (out.openWatch target world).1 ≠ .ok true)
    (hrate : c.rateFor p < 2 ^ 53) {e : Engine σ} (hkept : Kept e.registry) :
    Yields (answer out c) (Reconciling.apply c p) e (Applied out c p e) := by
  cases href : PolicyRef.ofPolicy p with
  | error key =>
    unfold Reconciling.apply
    rw [href]
    exact .pure (.nameless href)
  | ok ref =>
    rw [Reconciling.apply_eq c p href]
    refine Yields.ask fun leads e₁ hanswer => ?_
    obtain ⟨hleads, rfl⟩ := Prod.mk.inj (Option.some.inj hanswer)
    cases leads with
    | false =>
      refine .ask fun _ e₂ h => ?_
      cases h
      refine .ask fun held e₃ h => ?_
      cases h
      exact .pure (.aside href hleads rfl)
    | true =>
      refine .ask fun previous e₁ h => ?_
      cases h
      refine .bind ((yields_wait e).mono fun qs left e₁ hwait => ?_)
      obtain ⟨hquiet, hsame, hremembers⟩ := hwait
      cases left with
      | some left => exact .pure (.early href hleads (by simpa [remembers] using hremembers) rfl hsame)
      | none =>
        refine .bind ((yields_visit hopen hrate (hsame.registry ▸ hkept) _).mono fun qs' v e' hvisit => ?_)
        obtain ⟨hremembers', hserved, record, hpasses⟩ := hvisit
        have hbefore : Quiet (.isLeader :: .state ref.uid :: qs) := ⟨hquiet.phases, hquiet.changes⟩
        have hserved' := hserved.after hbefore hsame.registry
        have hpasses' : e'.passes = e.passes.insert ref.uid record := by rw [hpasses, hsame.passes]
        have hremembers'' : remembers ref.uid (.isLeader :: .state ref.uid :: (qs ++ qs')) = true := by
          unfold remembers at hremembers' ⊢
          simp [hremembers']
        refine .pure ?_
        rw [List.append_nil]
        exact .served href hleads hremembers'' hserved' ⟨record, hpasses'⟩

end Engine

end Reaper
