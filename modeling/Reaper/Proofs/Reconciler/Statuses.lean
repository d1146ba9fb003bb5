import Reaper.Proofs.Reconciler.Lifecycle

/-!
The statuses that a visit writes.

A visit that is due writes one status at its very end, and a visit that is not due writes none. What the visit comes to
is told for runs that end and for those that do not (`comesTo_apply`): the latter write nothing, and there are three
reasons for them (`BreaksOff`).

  §1 Notes    — the statuses and the pass records among the questions of a run.
  §2 Silence  — the parts of a visit that leave both alone. They always end.
  §3 Closings — the end of a visit, with the only status that it writes.
  §4 Visits   — what a visit comes to.
  §5 Deeds    — what a reconciler has done, it has done in this way.
-/

namespace Reaper

/-! ## §1 Notes -/

namespace Question

/-- The statuses that are written, and for which policies. -/
def writes (qs : List Question) : List (PolicyRef × PolicyStatus) :=
  qs.filterMap fun
    | .writeStatus ref s => some (ref, s)
    | _ => none

/-- The records of passes that are put down. -/
def records (qs : List Question) : List (String × PassRecord) :=
  qs.filterMap fun
    | .remember uid record => some (uid, record)
    | _ => none

/-- A question that always has an answer, and neither writes a status nor has to do with the records of passes. -/
def IsSilent : Question → Prop
  | isLeader | now | lastPass _ | state _ | setState .. | ensure .. | handles _ | snapshot _ | notify .. => True
  | _ => False

theorem writes_append (qs qs' : List Question) : writes (qs ++ qs') = writes qs ++ writes qs' := List.filterMap_append

theorem records_append (qs qs' : List Question) : records (qs ++ qs') = records qs ++ records qs' :=
  List.filterMap_append

end Question

/-- How many resources a visit has deleted. -/
def Visit.deleted (v : Visit) : Nat := (v.result.map (·.deleted)).getD 0

namespace Engine

open Program (AsksOnly ComesTo)
open Question (IsSilent writes records)

variable {σ : Type} (out : Surroundings σ) (c : Settings)

/-- How many resources the passes deleted that a run has asked for. -/
def deletedIn (t : List (Question × Engine σ)) : Nat :=
  (t.map fun
    | (.evaluate p h, e) => ((e.evaluate out c p h).map (·.1.deleted)).getD 0
    | _ => 0).sum

/-- Why a visit that is due does not end: the target has no plural, its pass has no result, or the total does not
fit. -/
def BreaksOff (p : Policy) (ref : PolicyRef) (t : List (Question × Engine σ)) : Prop :=
  WatchTarget.ofPolicy? p = none ∨
    (∃ h e, (.evaluate p h, e) ∈ t ∧ e.registry.handles? ref.uid = some h ∧ e.evaluate out c p h = none) ∨
    p.totalAfter? (deletedIn out c t) = none

variable {out c} {p : Policy} {ref : PolicyRef}

theorem deletedIn_append (t t' : List (Question × Engine σ)) :
    deletedIn out c (t ++ t') = deletedIn out c t + deletedIn out c t' := by
  simp [deletedIn]

/-! ## §2 Silence -/

/-- All questions of a run are silent. -/
def Silent (t : List (Question × Engine σ)) : Prop := ∀ x ∈ t, x.1.IsSilent

theorem Silent.writes {t : List (Question × Engine σ)} (h : Silent t) : writes (t.map (·.1)) = [] := by
  refine List.filterMap_eq_nil_iff.mpr fun q hq => ?_
  obtain ⟨x, hx, rfl⟩ := List.mem_map.mp hq
  have hsilent := h x hx
  revert hsilent
  cases x.1 <;> simp [IsSilent]

theorem Silent.records {t : List (Question × Engine σ)} (h : Silent t) : records (t.map (·.1)) = [] := by
  refine List.filterMap_eq_nil_iff.mpr fun q hq => ?_
  obtain ⟨x, hx, rfl⟩ := List.mem_map.mp hq
  have hsilent := h x hx
  revert hsilent
  cases x.1 <;> simp [IsSilent]

theorem Silent.deletedIn {t : List (Question × Engine σ)} (h : Silent t) : deletedIn out c t = 0 := by
  induction t with
  | nil => rfl
  | cons x t ih =>
    have hsilent := h x List.mem_cons_self
    have hrest := ih fun y hy => h y (List.mem_cons_of_mem _ hy)
    rw [← List.singleton_append, deletedIn_append, hrest]
    rcases x with ⟨q, e⟩
    cases q <;> first | rfl | exact hsilent.elim

variable (out c) in
/-- A silent question is answered, and the records of passes stay. -/
theorem exists_answer_of_silent {q : Question} (h : q.IsSilent) (e : Engine σ) :
    ∃ a e', answer out c q e = some (a, e') ∧ e'.passes = e.passes := by
  cases q <;> first | exact ⟨_, _, rfl, rfl⟩ | exact h.elim

variable (out c) in
/-- A silent part of a program always ends. -/
theorem exists_run_of_silent {α : Type} {a : Reconciling α} (ha : AsksOnly IsSilent a) (e : Engine σ) :
    ∃ value e', a.run (answer out c) e = some (value, e') ∧ e'.passes = e.passes ∧
      Silent (a.asked (answer out c) e) := by
  suffices ∃ value e', a.run (answer out c) e = some (value, e') ∧ e'.passes = e.passes by
    obtain ⟨value, e', hrun, hpasses⟩ := this
    exact ⟨value, e', hrun, hpasses, fun x hx => ha.of_mem_asked hx⟩
  induction a generalizing e with
  | done value => exact ⟨value, e, rfl, rfl⟩
  | ask q next ih =>
    obtain ⟨r, e₁, hanswer, hpasses⟩ := exists_answer_of_silent out c ha.1 e
    obtain ⟨value, e', hrun, hpasses'⟩ := ih r (ha.2 r) e₁
    exact ⟨value, e', by rw [Program.run, hanswer]; exact hrun, hpasses'.trans hpasses⟩

/-- A silent part, and what comes after it. -/
theorem comesTo_after_silent {α β : Type} {a : Reconciling α} (ha : AsksOnly IsSilent a) {f : α → Reconciling β}
    {e : Engine σ} {R : List (Question × Engine σ) → Option (β × Engine σ) → Prop}
    (h : ∀ t value e', Silent t → e'.passes = e.passes →
      ComesTo (answer out c) (f value) e' fun t' r => R (t ++ t') r) :
    ComesTo (answer out c) (a >>= f) e R := by
  obtain ⟨value, e', hrun, hpasses, hsilent⟩ := exists_run_of_silent out c ha e
  exact .after hrun (h _ value e' hsilent hpasses)

theorem asksOnly_silent_notifyAll (notices : List Notice) : AsksOnly IsSilent (Reconciling.notifyAll ref notices) := by
  induction notices with
  | nil => exact .pure ()
  | cons notice rest ih => exact .bind (Reconciling.asksOnly_ask trivial) fun _ => ih

theorem asksOnly_silent_transition (previous next : PolicyState) :
    AsksOnly IsSilent (Reconciling.transition ref previous next) := by
  refine .bind (Reconciling.asksOnly_ask trivial) fun _ => ?_
  split
  · exact Reconciling.asksOnly_ask trivial
  · exact .pure ()

theorem asksOnly_silent_pausedHandles (target : WatchTarget) :
    AsksOnly IsSilent (Reconciling.pausedHandles c p ref target) := by
  refine .bind (Reconciling.asksOnly_ask trivial) fun handles => ?_
  cases handles with
  | none => exact .pure _
  | some h =>
    dsimp only
    split
    · exact .pure _
    · refine .bind (Reconciling.asksOnly_ask trivial) fun result => ?_
      cases result with
      | error e => exact .pure _
      | ok _ => exact .bind (Reconciling.asksOnly_ask trivial) fun _ => .pure _

/-! ## §3 Closings -/

/-- What the end of a visit comes to that has deleted so many resources: it writes a status, or the total does not
fit. -/
inductive Closing (out : Surroundings σ) (c : Settings) (p : Policy) (ref : PolicyRef) (deleted : Nat) (e : Engine σ) :
    List (Question × Engine σ) → Option (Visit × Engine σ) → Prop where
  | written {t : List (Question × Engine σ)} {status : PolicyStatus} {v : Visit} {e' : Engine σ} :
    writes (t.map (·.1)) = [(ref, status)] → records (t.map (·.1)) = [] → deletedIn out c t = 0 →
      p.totalAfter? deleted = some status.totalDeleted → v.deleted = deleted → e'.passes = e.passes →
      Closing out c p ref deleted e t (some (v, e'))
  | overflow {t : List (Question × Engine σ)} : writes (t.map (·.1)) = [] → records (t.map (·.1)) = [] →
      deletedIn out c t = 0 → p.totalAfter? deleted = none → Closing out c p ref deleted e t none

/-- A closing with something silent before it. -/
theorem Closing.after {deleted : Nat} {e e₁ : Engine σ} {t t' : List (Question × Engine σ)}
    {r : Option (Visit × Engine σ)} (h : Closing out c p ref deleted e₁ t' r) (hsilent : Silent t)
    (hpasses : e₁.passes = e.passes) : Closing out c p ref deleted e (t ++ t') r := by
  have hwrites : writes ((t ++ t').map (·.1)) = writes (t'.map (·.1)) := by
    rw [List.map_append, Question.writes_append, hsilent.writes, List.nil_append]
  have hrecords : records ((t ++ t').map (·.1)) = records (t'.map (·.1)) := by
    rw [List.map_append, Question.records_append, hsilent.records, List.nil_append]
  have hdeleted : deletedIn out c (t ++ t') = deletedIn out c t' := by
    rw [deletedIn_append, hsilent.deletedIn, Nat.zero_add]
  cases h with
  | written hw hr hd htotal hv hp =>
    exact .written (hwrites.trans hw) (hrecords.trans hr) (hdeleted.trans hd) htotal hv (hp.trans hpasses)
  | overflow hw hr hd htotal => exact .overflow (hwrites.trans hw) (hrecords.trans hr) (hdeleted.trans hd) htotal

theorem comesTo_writeStatus (s : PolicyState) (r : PassResult) (message : String) (v : Visit)
    (hv : v.deleted = r.deleted) (e : Engine σ) :
    ComesTo (answer out c) (do Reconciling.writeStatus c p ref s r message; pure v) e
      (Closing out c p ref r.deleted e) := by
  change ComesTo (answer out c) (Program.query .now >>= fun now =>
    (Reconciling.require (p.statusAfter? c.gcInterval now s r message) >>= fun status =>
      Reconciling.ask (.writeStatus ref status)) >>= fun _ => pure v) e _
  refine .answered rfl ?_
  cases hstatus : p.statusAfter? c.gcInterval (out.now e.world).1 s r message with
  | none => exact .overflow rfl rfl rfl (Option.map_eq_none_iff.mp hstatus)
  | some status =>
    obtain ⟨total, htotal, rfl⟩ := Option.map_eq_some_iff.mp hstatus
    exact .written rfl rfl rfl htotal hv rfl

/-- The end of a visit: it enters a state, and writes it into the status. -/
theorem comesTo_closing {between : Reconciling Unit} (hbetween : AsksOnly IsSilent between)
    (previous s : PolicyState) (r : PassResult) (message : String) (v : Visit) (hv : v.deleted = r.deleted)
    (e : Engine σ) :
    ComesTo (answer out c)
      (do
        Reconciling.transition ref previous s
        between
        Reconciling.writeStatus c p ref s r message
        pure v)
      e (Closing out c p ref r.deleted e) := by
  refine comesTo_after_silent (asksOnly_silent_transition previous s) fun t _ e₁ hsilent hpasses => ?_
  refine comesTo_after_silent hbetween fun t' _ e₂ hsilent' hpasses' => ?_
  refine (comesTo_writeStatus s r message v hv e₂).mono fun t'' result hclosing => ?_
  exact (hclosing.after hsilent' hpasses').after hsilent hpasses

theorem comesTo_fail (previous : PolicyState) (err : ServeError) (e : Engine σ) :
    ComesTo (answer out c) (Reconciling.fail c p ref previous err) e (Closing out c p ref 0 e) :=
  comesTo_closing (Reconciling.asksOnly_ask trivial) previous .error {} err.message ⟨.error, none, c.gcInterval⟩ rfl e

/-- A survey deletes nothing. -/
theorem comesTo_visitPaused (previous : PolicyState) (target : WatchTarget) (e : Engine σ) :
    ComesTo (answer out c) (Reconciling.visitPaused c p ref previous target) e (Closing out c p ref 0 e) := by
  refine comesTo_after_silent (asksOnly_silent_pausedHandles target) fun t result e₁ hsilent hpasses => ?_
  cases result with
  | error err => exact (comesTo_fail previous err e₁).mono fun _ _ hclosing => hclosing.after hsilent hpasses
  | ok handles =>
    have hrest (survey : PassResult) (hsurvey : survey.deleted = 0) (e₂ : Engine σ) :
        ComesTo (answer out c)
          (do
            Reconciling.transition ref previous .paused
            Reconciling.writeStatus c p ref .paused survey "Policy is paused; deletions are suspended"
            pure (⟨.paused, some survey, c.gcInterval⟩ : Visit)) e₂ (Closing out c p ref 0 e₂) := by
      rw [← hsurvey]
      have hnothing : AsksOnly IsSilent (pure () : Reconciling Unit) := .pure ()
      exact comesTo_closing hnothing previous .paused survey _ ⟨.paused, some survey, c.gcInterval⟩ rfl e₂
    cases handles with
    | none => exact (hrest {} rfl e₁).mono fun _ _ hclosing => hclosing.after hsilent hpasses
    | some h =>
      refine .mono (R := fun t' r => Closing out c p ref 0 e₁ t' r) ?_ fun _ _ hclosing => hclosing.after hsilent hpasses
      refine .answered rfl ?_
      refine .answered rfl ?_
      refine (hrest (Evaluator.scan p h.target _ _) rfl _).mono fun t' _ hclosing => ?_
      exact hclosing.after (t := [(.now, e₁), (.snapshot h, _)]) (by simp [Silent, IsSilent]) rfl

/-! ## §4 Visits -/

/-- What the visit of a policy comes to that is due: it has written a status, or breaks off. -/
inductive Due (out : Surroundings σ) (c : Settings) (p : Policy) (ref : PolicyRef) (records : List (String × PassRecord))
    (e : Engine σ) : List (Question × Engine σ) → Option (Visit × Engine σ) → Prop where
  | written {t : List (Question × Engine σ)} {status : PolicyStatus} {v : Visit} {e' : Engine σ} :
    writes (t.map (·.1)) = [(ref, status)] → Question.records (t.map (·.1)) = records →
      v.deleted = deletedIn out c t → p.totalAfter? v.deleted = some status.totalDeleted → e'.passes = e.passes →
      Due out c p ref records e t (some (v, e'))
  | broken {t : List (Question × Engine σ)} : writes (t.map (·.1)) = [] → Question.records (t.map (·.1)) = records →
      BreaksOff out c p ref t → Due out c p ref records e t none

/-- What comes before the rest of a visit. -/
theorem Due.after {found found' : List (String × PassRecord)} {e e₁ : Engine σ} {t t' : List (Question × Engine σ)}
    {r : Option (Visit × Engine σ)} (h : Due out c p ref found e₁ t' r) (hwrites : writes (t.map (·.1)) = [])
    (hrecords : records (t.map (·.1)) ++ found = found') (hdeleted : deletedIn out c t = 0)
    (hpasses : e₁.passes = e.passes) : Due out c p ref found' e (t ++ t') r := by
  have hwrites' : writes ((t ++ t').map (·.1)) = writes (t'.map (·.1)) := by
    rw [List.map_append, Question.writes_append, hwrites, List.nil_append]
  have hrecords' (hfound : records (t'.map (·.1)) = found) : records ((t ++ t').map (·.1)) = found' := by
    rw [List.map_append, Question.records_append, hfound, hrecords]
  have hdeleted' : deletedIn out c (t ++ t') = deletedIn out c t' := by
    rw [deletedIn_append, hdeleted, Nat.zero_add]
  cases h with
  | written hw hr hd htotal hp =>
    exact .written (hwrites'.trans hw) (hrecords' hr) (hd.trans hdeleted'.symm) htotal (hp.trans hpasses)
  | broken hw hr hbreaks =>
    refine .broken (hwrites'.trans hw) (hrecords' hr) ?_
    rcases hbreaks with hplural | ⟨h, e₂, hmem, hpass⟩ | htotal
    · exact .inl hplural
    · exact .inr (.inl ⟨h, e₂, List.mem_append_right _ hmem, hpass⟩)
    · exact .inr (.inr (hdeleted'.symm ▸ htotal))

/-- The closing of a visit after a run that has deleted so many resources. -/
theorem Closing.due {deleted : Nat} {e e₁ : Engine σ} {t t' : List (Question × Engine σ)}
    {r : Option (Visit × Engine σ)} (h : Closing out c p ref deleted e₁ t' r) (hwrites : writes (t.map (·.1)) = [])
    (hrecords : records (t.map (·.1)) = []) (hdeleted : deletedIn out c t = deleted) (hpasses : e₁.passes = e.passes) :
    Due out c p ref [] e (t ++ t') r := by
  have hwrites' : writes ((t ++ t').map (·.1)) = writes (t'.map (·.1)) := by
    rw [List.map_append, Question.writes_append, hwrites, List.nil_append]
  have hrecords' : records ((t ++ t').map (·.1)) = records (t'.map (·.1)) := by
    rw [List.map_append, Question.records_append, hrecords, List.nil_append]
  have hdeleted' (ht' : deletedIn out c t' = 0) : deletedIn out c (t ++ t') = deleted := by
    rw [deletedIn_append, ht', hdeleted, Nat.add_zero]
  cases h with
  | written hw hr hd htotal hv hp =>
    exact .written (hwrites'.trans hw) (hrecords'.trans hr) (hv.trans (hdeleted' hd).symm) (hv ▸ htotal)
      (hp.trans hpasses)
  | overflow hw hr hd htotal =>
    exact .broken (hwrites'.trans hw) (hrecords'.trans hr) (.inr (.inr ((hdeleted' hd).symm ▸ htotal)))

theorem comesTo_visitActive (previous : PolicyState) (target : WatchTarget) (e : Engine σ) :
    ComesTo (answer out c) (Reconciling.visitActive c p ref previous target) e (Due out c p ref [] e) := by
  have hfail (t : List (Question × Engine σ)) (hsilent : Silent t) (err : ServeError) (e₁ : Engine σ)
      (hpasses : e₁.passes = e.passes) : ComesTo (answer out c) (Reconciling.fail c p ref previous err) e₁
        fun t' r => Due out c p ref [] e (t ++ t') r :=
    (comesTo_fail previous err e₁).mono fun _ _ hclosing =>
      hclosing.due hsilent.writes hsilent.records hsilent.deletedIn hpasses
  obtain ⟨result, e₁, hensure, hpasses⟩ : ∃ result e₁,
      answer out c (.ensure ref.uid target (c.rateFor p)) e = some (result, e₁) ∧ e₁.passes = e.passes :=
    ⟨_, _, rfl, rfl⟩
  refine .answered hensure ?_
  cases result with
  | error err => exact hfail [(.ensure ref.uid target (c.rateFor p), e)] (by simp [Silent, IsSilent]) err e₁ hpasses
  | ok outcome =>
    refine .answered rfl ?_
    let before : List (Question × Engine σ) := [(.ensure ref.uid target (c.rateFor p), e), (.handles ref.uid, e₁)]
    cases hhandles : e₁.registry.handles? ref.uid with
    | none => exact hfail before (by simp [before, Silent, IsSilent]) _ e₁ hpasses
    | some h =>
      refine .ask (fun hnone => ?_) fun r e₂ hpass => ?_
      · exact .broken rfl rfl (.inr (.inl ⟨h, e₁, by simp, hhandles, hnone⟩))
      · have hstores : e₂.passes = e₁.passes := by
          obtain ⟨v, -, heq⟩ := Option.map_eq_some_iff.mp hpass
          cases heq
          rfl
        have hdeleted : deletedIn out c (before ++ [(.evaluate p h, e₁)]) = r.deleted := by
          have hpass' : e₁.evaluate out c p h = some (r, e₂) := hpass
          simp [before, deletedIn, hpass']
        refine (comesTo_closing (asksOnly_silent_notifyAll r.notices) previous .active r r.summary
          ⟨.active, some r, c.gcInterval⟩ rfl e₂).mono fun t' result hclosing => ?_
        exact hclosing.due (t := before ++ [(.evaluate p h, e₁)]) rfl rfl hdeleted (hstores.trans hpasses)

theorem comesTo_visitTarget (previous : PolicyState) (target : Except TargetError WatchTarget) (e : Engine σ) :
    ComesTo (answer out c) (Reconciling.visitTarget c p ref previous target) e (Due out c p ref [] e) := by
  have hclosed {t : List (Question × Engine σ)} {r : Option (Visit × Engine σ)} (h : Closing out c p ref 0 e t r) :
      Due out c p ref [] e t r := h.due (t := []) rfl rfl rfl rfl
  cases target with
  | error err => exact (comesTo_fail previous (.target err) e).mono fun _ _ => hclosed
  | ok target =>
    unfold Reconciling.visitTarget
    dsimp only
    split
    · exact (comesTo_visitPaused previous target e).mono fun _ _ => hclosed
    · exact comesTo_visitActive previous target e

/-- The record that a pass of a policy leaves that begins now. -/
def recordNow (out : Surroundings σ) (p : Policy) (world : σ) : PassRecord := ⟨p.spec, (out.now world).1⟩

/-- What the visit of a policy comes to whose record was put down just before. -/
theorem comesTo_visit_recorded (previous : PolicyState) (e : Engine σ) :
    ComesTo (answer out c)
      (Reconciling.require (WatchTarget.ofPolicy? p) >>= Reconciling.visitTarget c p ref previous) e
      fun t r => Due out c p ref [] e t r ∧ (WatchTarget.ofPolicy? p = none → r = none) := by
  cases htarget : WatchTarget.ofPolicy? p with
  | none => exact ⟨.broken rfl rfl (.inl htarget), fun _ => rfl⟩
  | some target => exact (comesTo_visitTarget previous target e).mono fun t r hdue => ⟨hdue, fun hnone => (Option.some_ne_none _ hnone).elim⟩

theorem comesTo_visit (previous : PolicyState) (e : Engine σ) :
    ComesTo (answer out c) (Reconciling.visit c p ref previous) e
      fun t r => Due out c p ref [(ref.uid, recordNow out p e.world)]
        { e with passes := e.passes.insert ref.uid (recordNow out p e.world) } t r ∧
          (WatchTarget.ofPolicy? p = none → r = none) := by
  refine .answered rfl ?_
  refine .answered rfl ?_
  have hbefore {t : List (Question × Engine σ)} {r : Option (Visit × Engine σ)}
      (hdue : Due out c p ref [] { e with passes := e.passes.insert ref.uid (recordNow out p e.world) } t r) :
      Due out c p ref [(ref.uid, recordNow out p e.world)]
        { e with passes := e.passes.insert ref.uid (recordNow out p e.world) }
        ((.now, e) :: (.remember ref.uid (recordNow out p e.world), { e with world := (out.now e.world).2 }) :: t) r :=
    hdue.after (t := [(.now, e), (.remember ref.uid (recordNow out p e.world), _)]) rfl rfl rfl rfl
  dsimp only
  split
  · refine comesTo_after_silent (a := Reconciling.ask (.notify ref _)) ⟨trivial, fun _ => trivial⟩
      fun t _ e₃ hsilent hpasses => ?_
    refine (comesTo_visit_recorded previous e₃).mono fun t' r hdue => ⟨hbefore ?_, hdue.2⟩
    exact hdue.1.after hsilent.writes (by rw [hsilent.records]; rfl) hsilent.deletedIn hpasses
  · refine (comesTo_visit_recorded previous _).mono fun t' r hdue => ⟨hbefore ?_, hdue.2⟩
    exact hdue.1.after (t := []) rfl rfl rfl rfl

/-- The time that is left before a policy is due; none when it is. -/
def left? (out : Surroundings σ) (c : Settings) (p : Policy) (ref : PolicyRef) (e : Engine σ) : Option Duration :=
  (e.passes.get? ref.uid).bind fun record =>
    if record.spec = p.spec then record.wait? c.gcInterval (out.now e.world).1 else none

/-- What one visit of a policy comes to, whether it ends or not. -/
inductive Course (out : Surroundings σ) (c : Settings) (p : Policy) (e : Engine σ) :
    List (Question × Engine σ) → Option (Except ServeError Visit × Engine σ) → Prop where
  /-- the policy has no identity -/
  | nameless {key : String} : PolicyRef.ofPolicy p = .error key → Course out c p e [] (some (.error (.missingKey key), e))
  /-- this replica does not lead -/
  | aside {ref : PolicyRef} {t : List (Question × Engine σ)} {v : Visit} : PolicyRef.ofPolicy p = .ok ref →
      out.isLeader e.world = false → t.map (·.1) = [.isLeader, .forget ref.uid, .remove ref.uid] → v.result = none →
      Course out c p e t (some (.ok v, (e.teardown ref.uid).2))
  /-- the policy is not due -/
  | early {ref : PolicyRef} {t : List (Question × Engine σ)} {left : Duration} : PolicyRef.ofPolicy p = .ok ref →
      out.isLeader e.world = true → e.left? out c p ref = some left →
      t.map (·.1) = [.isLeader, .state ref.uid, .lastPass ref.uid, .now] →
      Course out c p e t
        (some (.ok ⟨e.registry.state ref.uid, none, left⟩, { e with world := (out.now e.world).2 }))
  /-- the policy is due, and the clock is read once more for the record -/
  | due {ref : PolicyRef} {world : σ} {t : List (Question × Engine σ)} {r : Option (Visit × Engine σ)} :
      PolicyRef.ofPolicy p = .ok ref → out.isLeader e.world = true → e.left? out c p ref = none →
      (world = e.world ∨ world = (out.now e.world).2) → (WatchTarget.ofPolicy? p = none → r = none) →
      Due out c p ref [(ref.uid, recordNow out p world)]
        { e with passes := e.passes.insert ref.uid (recordNow out p world) } t r →
      Course out c p e t (r.map fun x => (.ok x.1, x.2))

theorem comesTo_apply (p : Policy) (e : Engine σ) :
    ComesTo (answer out c) (Reconciling.apply c p) e (Course out c p e) := by
  cases href : PolicyRef.ofPolicy p with
  | error key =>
    unfold Reconciling.apply
    rw [href]
    exact .pure (.nameless href)
  | ok ref =>
    rw [Reconciling.apply_eq c p href]
    refine .answered rfl ?_
    cases hleads : out.isLeader e.world with
    | false =>
      refine .answered rfl ?_
      refine .answered rfl ?_
      exact .pure (.aside href hleads rfl rfl)
    | true =>
      refine .answered rfl ?_
      -- the visit that follows when the policy is due
      have hvisit (t : List (Question × Engine σ)) (hsilent : Silent t) (world : σ)
          (hworld : world = e.world ∨ world = (out.now e.world).2) (hdue : e.left? out c p ref = none) :
          ComesTo (answer out c)
            (Reconciling.visit c p ref (e.registry.state ref.uid) >>= fun v =>
              pure (.ok v : Except ServeError Visit))
            { e with world } fun t' r => Course out c p e (t ++ t') r := by
        refine .map ((comesTo_visit _ { e with world }).mono fun t' r hvisited => ?_)
        refine .due href hleads hdue hworld (by simpa using hvisited.2) ?_
        exact hvisited.1.after hsilent.writes (by rw [hsilent.records]; rfl) hsilent.deletedIn rfl
      refine .answered rfl ?_
      cases hrecord : e.passes.get? ref.uid with
      | none =>
        exact hvisit [(.isLeader, e), (.state ref.uid, e), (.lastPass ref.uid, e)] (by simp [Silent, IsSilent]) e.world
          (.inl rfl) (by simp [left?, hrecord])
      | some record =>
        by_cases hspec : record.spec = p.spec
        · simp only [Program.bind, if_pos hspec]
          refine .answered rfl ?_
          have hleft : e.left? out c p ref = record.wait? c.gcInterval (out.now e.world).1 := by
            simp [left?, hrecord, hspec]
          cases hwait : record.wait? c.gcInterval (out.now e.world).1 with
          | none =>
            exact hvisit [(.isLeader, e), (.state ref.uid, e), (.lastPass ref.uid, e), (.now, e)]
              (by simp [Silent, IsSilent]) _ (.inr rfl) (hleft.trans hwait)
          | some left => exact .early href hleads (hleft.trans hwait) rfl
        · simp only [Program.bind, if_neg hspec]
          exact hvisit [(.isLeader, e), (.state ref.uid, e), (.lastPass ref.uid, e)] (by simp [Silent, IsSilent]) e.world
            (.inl rfl) (by simp [left?, hrecord, hspec])

end Engine

/-! ## §5 Deeds -/

/-- The deed has come to what it says. -/
def Deed.IsGenuine {σ : Type} (out : Surroundings σ) (c : Settings) (d : Deed σ) : Prop :=
  d.before.act out c d.act = some (d.visit, d.after)

variable {σ : Type} {out : Surroundings σ} {c : Settings}

/-- The visit of a policy that a genuine deed is. -/
theorem Deed.IsGenuine.exists_course {d : Deed σ} (h : d.IsGenuine out c) {p : Policy} (hact : d.act = .apply p) :
    ∃ result, d.visit = result.toOption ∧
      Engine.Course out c p d.before ((Reconciling.apply c p).asked (Engine.answer out c) d.before)
        (some (result, d.after)) := by
  rw [IsGenuine, hact] at h
  obtain ⟨⟨result, e'⟩, happly, heq⟩ := Option.map_eq_some_iff.mp h
  obtain ⟨hvisit, rfl⟩ := Prod.mk.inj heq
  have hcourse : Engine.Course out c p d.before _ _ := Engine.comesTo_apply p d.before
  rw [show (Reconciling.apply c p).run (Engine.answer out c) d.before = some (result, d.after) from happly] at hcourse
  exact ⟨result, hvisit.symm, hcourse⟩

/-- A run whose first act is known. -/
theorem Chronicle.run_cons {s : Chronicle σ} {a : Act σ} {visit : Option Visit} {e' : Engine σ}
    (h : s.engine.act out c a = some (visit, e')) (acts : List (Act σ)) :
    s.run out c (a :: acts) = run out c ⟨e', ⟨a, s.engine, e', visit⟩ :: s.deeds⟩ acts := by
  rw [run, List.foldlM_cons, step, h]
  rfl

/-- What genuine deeds keep holds after every run. -/
theorem Chronicle.run_induction {P : Chronicle σ → Prop}
    (hstep : ∀ s d, P s → d.before = s.engine → d.IsGenuine out c → P ⟨d.after, d :: s.deeds⟩) {s s' : Chronicle σ}
    {acts : List (Act σ)} (hrun : s.run out c acts = some s') (h : P s) : P s' := by
  induction acts generalizing s with
  | nil =>
    cases hrun
    exact h
  | cons a acts ih =>
    rw [Chronicle.run, List.foldlM_cons] at hrun
    obtain ⟨next, hnext, hrest⟩ := Option.bind_eq_some_iff.mp hrun
    obtain ⟨⟨visit, e'⟩, hact, rfl⟩ := Option.map_eq_some_iff.mp hnext
    exact ih hrest (hstep s ⟨a, s.engine, e', visit⟩ h rfl hact)

/-- Everything that is done in a run is what it says. -/
theorem Chronicle.isGenuine_run {s s' : Chronicle σ} {acts : List (Act σ)} (hrun : s.run out c acts = some s')
    (h : ∀ d ∈ s.deeds, d.IsGenuine out c) : ∀ d ∈ s'.deeds, d.IsGenuine out c :=
  run_induction (P := fun s => ∀ d ∈ s.deeds, d.IsGenuine out c)
    (fun _ _ h _ hd => List.forall_mem_cons.mpr ⟨hd, h⟩) hrun h

end Reaper
