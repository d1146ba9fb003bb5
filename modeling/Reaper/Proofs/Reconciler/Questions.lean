import Reaper.Proofs.Program
import Reaper.Reconciler

/-!
What the parts of a visit ask.

A visit that leads asks about its own policy only, and lets go of nothing: it changes what is held for the policy by
ensuring a watch, by entering a state in which the policy is tracked, and by running a pass (`asksOnly_lead`).

  §1 Questions — the questions of a visit, with and without a pass.
  §2 Parts     — what each part of a visit asks.
-/

namespace Reaper

/-! ## §1 Questions -/

/-- A question that a visit of a policy asks on its way, other than for a pass. -/
def Question.IsStep (ref : PolicyRef) : Question → Prop
  | now | snapshot _ | halt => True
  | lastPass uid | state uid | handles uid => uid = ref.uid
  | remember uid _ => uid = ref.uid
  | ensure uid _ _ => uid = ref.uid
  | setState uid s => uid = ref.uid ∧ s ≠ .notTracked
  | notify r _ => r = ref
  | writeStatus r _ => r = ref
  | isLeader | forget _ | forgetOthers _ | remove _ | prune _ | evaluate .. | patch .. => False

/-- A question that a visit of a policy asks on its way. -/
def Question.IsVisit (ref : PolicyRef) (q : Question) : Prop := q.IsStep ref ∨ ∃ p h, q = .evaluate p h

def Question.IsNoPass : Question → Prop
  | evaluate .. => False
  | _ => True

/-! ## §2 Parts -/

namespace Reconciling

open Program (AsksOnly)

variable (c : Settings) (p : Policy) (ref : PolicyRef)

theorem asksOnly_ask {P : Question → Prop} {q : Question} (h : P q) : AsksOnly P (ask q) := ⟨h, fun _ => trivial⟩

theorem asksOnly_require {α : Type} (a : Option α) : AsksOnly (Question.IsStep ref) (require a) := by
  cases a with
  | some a => exact .pure a
  | none => exact .bind (asksOnly_ask trivial) fun a => nomatch a

theorem asksOnly_notifyAll (notices : List Notice) : AsksOnly (Question.IsStep ref) (notifyAll ref notices) := by
  induction notices with
  | nil => exact .pure ()
  | cons notice rest ih => exact .bind (asksOnly_ask rfl) fun _ => ih

theorem asksOnly_transition (previous : PolicyState) {next : PolicyState} (h : next ≠ .notTracked) :
    AsksOnly (Question.IsStep ref) (transition ref previous next) := by
  refine .bind (asksOnly_ask ⟨rfl, h⟩) fun _ => ?_
  split
  · exact asksOnly_ask rfl
  · exact .pure ()

theorem asksOnly_writeStatus (state : PolicyState) (r : PassResult) (message : String) :
    AsksOnly (Question.IsStep ref) (writeStatus c p ref state r message) :=
  .bind (asksOnly_ask trivial) fun _ => .bind (asksOnly_require ref _) fun _ => asksOnly_ask rfl

theorem asksOnly_fail (previous : PolicyState) (e : ServeError) :
    AsksOnly (Question.IsStep ref) (fail c p ref previous e) :=
  .bind (asksOnly_transition ref previous nofun) fun _ => .bind (asksOnly_ask rfl) fun _ =>
    .bind (asksOnly_writeStatus c p ref .error _ _) fun _ => .pure _

theorem asksOnly_wait : AsksOnly (Question.IsStep ref) (wait c p ref) := by
  refine .bind (asksOnly_ask rfl) fun record => ?_
  cases record with
  | none => exact .pure none
  | some record =>
    simp only
    split
    · exact .bind (asksOnly_ask trivial) fun _ => .pure _
    · exact .pure none

theorem asksOnly_pausedHandles (target : WatchTarget) :
    AsksOnly (Question.IsStep ref) (pausedHandles c p ref target) := by
  refine .bind (asksOnly_ask rfl) fun handles => ?_
  cases handles with
  | none => exact .pure _
  | some h =>
    simp only
    split
    · exact .pure _
    · refine .bind (asksOnly_ask rfl) fun result => ?_
      cases result with
      | error e => exact .pure _
      | ok _ => exact .bind (asksOnly_ask rfl) fun _ => .pure _

theorem asksOnly_scan (h : Handles) : AsksOnly (Question.IsStep ref) (scan p h) :=
  .bind (asksOnly_ask trivial) fun _ => .bind (asksOnly_ask trivial) fun _ => .pure _

theorem asksOnly_visitPaused (previous : PolicyState) (target : WatchTarget) :
    AsksOnly (Question.IsStep ref) (visitPaused c p ref previous target) := by
  refine .bind (asksOnly_pausedHandles c p ref target) fun result => ?_
  cases result with
  | error e => exact asksOnly_fail c p ref previous e
  | ok handles =>
    have hrest (result : PassResult) : AsksOnly (Question.IsStep ref) (do
        transition ref previous .paused
        writeStatus c p ref .paused result "Policy is paused; deletions are suspended"
        pure (⟨.paused, some result, c.gcInterval⟩ : Visit)) :=
      .bind (asksOnly_transition ref previous nofun) fun _ =>
        .bind (asksOnly_writeStatus c p ref .paused result _) fun _ => .pure _
    cases handles with
    | some h => exact .bind (asksOnly_scan p ref h) hrest
    | none => exact .bind (.pure _) hrest

/-- What a visit does after its pass. -/
theorem asksOnly_afterPass (previous : PolicyState) (result : PassResult) :
    AsksOnly (Question.IsStep ref) (do
      transition ref previous .active
      notifyAll ref result.notices
      writeStatus c p ref .active result result.summary
      pure (⟨.active, some result, c.gcInterval⟩ : Visit)) :=
  .bind (asksOnly_transition ref previous nofun) fun _ => .bind (asksOnly_notifyAll ref _) fun _ =>
    .bind (asksOnly_writeStatus c p ref .active result _) fun _ => .pure _

variable {ref} in
/-- A part of a visit without a pass is a part of a visit. -/
theorem asksOnly_visit_of_step {α : Type} {a : Reconciling α} (ha : AsksOnly (Question.IsStep ref) a) :
    AsksOnly (Question.IsVisit ref) a :=
  ha.mono fun _ => .inl

theorem asksOnly_visitActive (previous : PolicyState) (target : WatchTarget) :
    AsksOnly (Question.IsVisit ref) (visitActive c p ref previous target) := by
  refine .bind (asksOnly_ask (.inl rfl)) fun result => ?_
  cases result with
  | error e => exact asksOnly_visit_of_step (asksOnly_fail c p ref previous e)
  | ok _ =>
    refine .bind (asksOnly_ask (.inl rfl)) fun handles => ?_
    cases handles with
    | none => exact asksOnly_visit_of_step (asksOnly_fail c p ref previous _)
    | some h =>
      exact .bind (asksOnly_ask (.inr ⟨p, h, rfl⟩)) fun result =>
        asksOnly_visit_of_step (asksOnly_afterPass c p ref previous result)

theorem asksOnly_visit (previous : PolicyState) : AsksOnly (Question.IsVisit ref) (visit c p ref previous) := by
  refine .bind (asksOnly_ask (.inl trivial)) fun now => .bind (asksOnly_ask (.inl rfl)) fun _ => ?_
  have hrest : AsksOnly (Question.IsVisit ref)
      (require (WatchTarget.ofPolicy? p) >>= visitTarget c p ref previous) := by
    refine .bind (asksOnly_visit_of_step (asksOnly_require ref _)) fun result => ?_
    cases result with
    | error e => exact asksOnly_visit_of_step (asksOnly_fail c p ref previous _)
    | ok target =>
      unfold visitTarget
      dsimp only
      split
      · exact asksOnly_visit_of_step (asksOnly_visitPaused c p ref previous target)
      · exact asksOnly_visitActive c p ref previous target
  dsimp only
  split
  · exact .bind (asksOnly_ask (.inl rfl)) fun _ => hrest
  · exact hrest

/-- What a visit does after it was told that this replica leads. -/
def lead : Reconciling (Except ServeError Visit) := do
  let previous ← ask (.state ref.uid)
  match ← wait c p ref with
  | some left => pure (.ok ⟨previous, none, left⟩)
  | none => do pure (.ok (← visit c p ref previous))

theorem asksOnly_lead : AsksOnly (Question.IsVisit ref) (lead c p ref) := by
  refine .bind (asksOnly_ask (.inl rfl)) fun previous => ?_
  refine .bind (asksOnly_visit_of_step (asksOnly_wait c p ref)) fun left => ?_
  cases left with
  | some left => exact .pure _
  | none => exact .bind (asksOnly_visit c p ref previous) fun _ => .pure _

/-- What a visit does after it was told that this replica does not lead. -/
def stepAside : Reconciling (Except ServeError Visit) := do
  ask (.forget ref.uid)
  discard (ask (.remove ref.uid))
  pure (.ok ⟨.notTracked, none, c.followerRequeue⟩)

/-- A visit asks first whether this replica leads. -/
theorem apply_eq {ref : PolicyRef} (href : PolicyRef.ofPolicy p = .ok ref) :
    apply c p = Program.ask .isLeader fun leads => if leads then lead c p ref else stepAside c ref := by
  unfold apply
  rw [href]
  refine congrArg (Program.ask Question.isLeader) (funext fun leads => ?_)
  cases leads <;> rfl

end Reconciling

end Reaper
