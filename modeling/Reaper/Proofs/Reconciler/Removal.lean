import Reaper.Proofs.Reconciler.Deletions
import Reaper.Proofs.Reconciler.Questions
import Reaper.Proofs.Reconciler.Threads
import Reaper.Proofs.Registry.Index

/-!
A visit beside a removal of its policy.

A removal forgets the pass of a policy first and then lets go of its slot. A visit that is under way is not told. What
it does after that for its policy brings back what was let go of: it remembers its pass, or it looks its slot up and makes
another one, be it only to enter a state. When both have ended, nothing is held for the policy exactly when the visit
did neither (`isGone_iff_never_revives`).

  §1 Threads — what the two threads are about to do.
  §2 Visit   — a step of the visit.
  §3 Removal — a step of the removal.
  §4 Revival — what is left when both have ended.
-/

namespace Reaper

/-! ## §1 Threads -/

/-- How policies are let go of. -/
inductive Removal where
  | teardown (uid : String)
  | prune (live : List String)

namespace Removal

def program : Removal → Reconciling Unit
  | teardown uid => discard (Reconciling.teardown uid)
  | prune live => discard (Reconciling.prune live)

/-- What is left of a removal when the passes have been forgotten. -/
def rest : Removal → Reconciling Unit
  | teardown uid => discard (Reconciling.ask (.remove uid))
  | prune live => discard (Reconciling.ask (.prune live))

/-- The policy is let go of. -/
def Covers (uid : String) : Removal → Prop
  | teardown uid' => uid' = uid
  | prune live => uid ∉ live

/-- The thread of the removal has forgotten the passes, which it does first. -/
def HasForgotten (v : Removal) (t : Thread Unit) : Prop := t ≠ .asking v.program

theorem program_teardown (uid : String) :
    (teardown uid).program = Program.ask (.forget uid) fun _ => (teardown uid).rest := rfl

theorem program_prune (live : List String) :
    (prune live).program = Program.ask (.forgetOthers live) fun _ => (prune live).rest := rfl

theorem rest_teardown (uid : String) : (teardown uid).rest = Program.ask (.remove uid) fun _ => Program.done () := rfl

theorem rest_prune (live : List String) : (prune live).rest = Program.ask (.prune live) fun _ => Program.done () := rfl

/-- What comes first is not what is left after it. -/
theorem rest_ne_program (v : Removal) : v.rest ≠ v.program := by
  cases v with
  | teardown uid =>
    rw [rest_teardown, program_teardown]
    exact nofun
  | prune live =>
    rw [rest_prune, program_prune]
    exact nofun

end Removal

namespace Thread

/-- The thread is about to remember a pass of the policy. -/
def Remembers (t : Thread Unit) (uid : String) : Prop :=
  ∃ record next, t = .asking (Program.ask (.remember uid record) next)

/-- The thread is about to look the policy up, and makes a slot for it if there is none. -/
def MakesSlot (t : Thread Unit) (uid : String) : Prop := ∃ task, t.task? = some task ∧ task.MakesSlot uid

/-- The thread of a removal does nothing more about the slot of the policy. -/
def HasLetGo (t : Thread Unit) (uid : String) : Prop :=
  t.value?.isSome ∨ ∃ task, t.task? = some task ∧ task.HasLetGo uid

/-- A thread in which a visit that leads is under way. -/
inductive Visits (ref : PolicyRef) : Thread Unit → Prop where
  | beginning {next : Bool → Reconciling Unit} (h : (next true).AsksOnly (Question.IsVisit ref)) :
    Visits ref (.asking (Program.ask .isLeader next))
  | asking {program : Reconciling Unit} (h : program.AsksOnly (Question.IsVisit ref)) : Visits ref (.asking program)
  | working {task : Task} {next : TaskResult → Reconciling Unit} (serves : task.Serves ref.uid)
    (h : ∀ r, (next r).AsksOnly (Question.IsVisit ref)) : Visits ref (.working task next)

/-- A thread in which a removal of the policy is under way. -/
inductive Removes (v : Removal) (uid : String) : Thread Unit → Prop where
  | beginning : Removes v uid (.asking v.program)
  | forgotten : Removes v uid (.asking v.rest)
  | working {task : Task} {next : TaskResult → Reconciling Unit} (removes : task.Removes uid)
    (unfinished : task.result? = none) (h : ∀ r, next r = Program.done ()) : Removes v uid (.working task next)
  | ended : Removes v uid (.asking (Program.done ()))

theorem remembers_asking {q : Question} {next : q.Answer → Reconciling Unit} {uid : String} :
    (asking (Program.ask q next)).Remembers uid ↔ ∃ record, q = .remember uid record := by
  constructor
  · rintro ⟨record, next', h⟩
    cases h
    exact ⟨record, rfl⟩
  · rintro ⟨record, rfl⟩
    exact ⟨record, next, rfl⟩

theorem not_makesSlot_asking {program : Reconciling Unit} {uid : String} : ¬ (asking program).MakesSlot uid := by
  rintro ⟨task, h, -⟩
  cases h

theorem not_hasLetGo_ask {q : Question} {next : q.Answer → Reconciling Unit} {uid : String} :
    ¬ (asking (Program.ask q next)).HasLetGo uid := by
  rintro (h | ⟨task, h, -⟩) <;> cases h

theorem makesSlot_working {task : Task} {next : TaskResult → Reconciling Unit} {uid : String} :
    (working task next).MakesSlot uid ↔ task.MakesSlot uid := by
  simp [MakesSlot, task?]

theorem hasLetGo_working {task : Task} {next : TaskResult → Reconciling Unit} {uid : String} :
    (working task next).HasLetGo uid ↔ task.HasLetGo uid := by
  simp [HasLetGo, task?, value?]

end Thread

namespace ReconcilerRun

variable {s : ReconcilerRun Unit} {ref : PolicyRef} {v : Removal} {uid : String} {supply : Supply} {P : Bool → Prop}

/-- The next step of the visit brings back what the removal has let go of. -/
def Revives (s : ReconcilerRun Unit) (v : Removal) (uid : String) (thread : Nat) : Prop :=
  thread = 0 ∧ ∃ visit removal, s.threads[0]? = some visit ∧ s.threads[1]? = some removal ∧
    (visit.Remembers uid ∧ v.HasForgotten removal ∨ visit.MakesSlot uid ∧ removal.HasLetGo uid)

/-! ## §2 Visit -/

/-- A task for a question of a visit serves the policy. -/
theorem serves_of_task? {q : Question} (hq : q.IsVisit ref) {task : Task} {read : TaskResult → q.Answer}
    (h : q.task? = some (task, read)) : task.Serves ref.uid := by
  have hstep : q.IsStep ref := by
    obtain hq | ⟨p, h', rfl⟩ := hq
    · exact hq
    · cases h
  cases q <;> cases h
  case state.refl uid =>
    obtain rfl : uid = ref.uid := hstep
    exact ⟨rfl, nofun, nofun, nofun⟩
  case setState.refl uid s =>
    obtain ⟨rfl, hs⟩ : uid = ref.uid ∧ s ≠ .notTracked := hstep
    rw [Task.setState, if_neg hs]
    exact ⟨rfl, nofun, nofun, nofun⟩
  case ensure.refl uid target rate =>
    obtain rfl : uid = ref.uid := hstep
    exact ⟨rfl, nofun, nofun, nofun⟩
  case handles.refl uid =>
    obtain rfl : uid = ref.uid := hstep
    exact ⟨rfl, nofun, nofun, nofun⟩
  all_goals exact hstep.elim

/-- A visit changes the records of passes only by remembering its own. -/
theorem pass_of_direct? {q : Question} (hq : q.IsVisit ref) {passes passes' : Dictionary PassRecord} {a : q.Answer}
    (h : q.direct? supply passes = some (a, passes')) :
    passes'.get? ref.uid = none ↔ passes.get? ref.uid = none ∧ ∀ record, q ≠ .remember ref.uid record := by
  have hsame (hp : passes' = passes) (hne : ∀ record, q ≠ .remember ref.uid record) :
      passes'.get? ref.uid = none ↔ passes.get? ref.uid = none ∧ ∀ record, q ≠ .remember ref.uid record := by
    rw [hp]
    exact ⟨fun hnone => ⟨hnone, hne⟩, fun hnone => hnone.1⟩
  obtain hq | ⟨p, h', rfl⟩ := hq
  · cases q <;> cases h
    case remember.refl uid record =>
      obtain rfl : uid = ref.uid := hq
      rw [Dictionary.get?_insert, if_pos rfl]
      exact ⟨nofun, fun hnone => absurd rfl (hnone.2 record)⟩
    case forget.refl => exact hq.elim
    case forgetOthers.refl => exact hq.elim
    all_goals exact hsame rfl fun _ hne => by cases hne
  · cases h
    exact hsame rfl fun _ hne => by cases hne

/-- What a step of the visit does: it goes on visiting, and a slot or a record that is there is not taken away. -/
structure VisitStep (ref : PolicyRef) (s s' : ReconcilerRun Unit) (visit : Thread Unit) : Prop where
  visits : ∃ visit', s'.threads[0]? = some visit' ∧ visit'.Visits ref
  slot : s'.registry.slot? ref.uid = none ↔ s.registry.slot? ref.uid = none ∧ ¬ visit.MakesSlot ref.uid
  pass : s'.passes.get? ref.uid = none ↔ s.passes.get? ref.uid = none ∧ ¬ visit.Remembers ref.uid

/-- A step in which the visit does nothing to the stores. -/
theorem VisitStep.of_same {visit visit' : Thread Unit} {s' : ReconcilerRun Unit}
    (hthread : s'.threads[0]? = some visit') (hvisits : visit'.Visits ref)
    (hslot : s'.registry.slot? ref.uid = s.registry.slot? ref.uid) (hpasses : s'.passes = s.passes)
    (hmakes : ¬ visit.MakesSlot ref.uid) (hremembers : ¬ visit.Remembers ref.uid) : VisitStep ref s s' visit where
  visits := ⟨visit', hthread, hvisits⟩
  slot := by
    rw [hslot]
    exact ⟨fun h => ⟨h, hmakes⟩, fun h => h.1⟩
  pass := by
    rw [hpasses]
    exact ⟨fun h => ⟨h, hremembers⟩, fun h => h.1⟩

/-- The next question of a visit. -/
theorem visitStep_ask {q : Question} {next : q.Answer → Reconciling Unit}
    (hthread : s.threads[0]? = some (.asking (Program.ask q next))) (hq : q.IsVisit ref)
    (hnext : ∀ a, (next a).AsksOnly (Question.IsVisit ref)) :
    VisitStep ref s (s.step 0 supply) (.asking (Program.ask q next)) := by
  cases htask : q.task? with
  | some work =>
    obtain ⟨task, read⟩ := work
    have hremembers : ¬ (Thread.asking (Program.ask q next)).Remembers ref.uid := by
      rw [Thread.remembers_asking]
      rintro ⟨record, rfl⟩
      cases htask
    rw [step_task hthread htask]
    exact .of_same (getElem?_put hthread _) (.working (serves_of_task? hq htask) fun r => hnext (read r)) rfl rfl
      Thread.not_makesSlot_asking hremembers
  | none =>
    cases hdirect : q.direct? supply s.passes with
    | none =>
      have hremembers : ¬ (Thread.asking (Program.ask q next)).Remembers ref.uid := by
        rw [Thread.remembers_asking]
        rintro ⟨record, rfl⟩
        cases hdirect
      rw [step_stuck hthread htask hdirect]
      exact .of_same hthread (.asking ⟨hq, hnext⟩) rfl rfl Thread.not_makesSlot_asking hremembers
    | some answered =>
      obtain ⟨a, passes⟩ := answered
      rw [step_direct hthread htask hdirect]
      refine ⟨⟨_, getElem?_put hthread _, .asking (hnext a)⟩, ?_, ?_⟩
      · have hslot := (sameWatches_spend q supply s.registry).slot? ref.uid
        exact ⟨fun h => ⟨hslot ▸ h, Thread.not_makesSlot_asking⟩, fun h => hslot.trans h.1⟩
      · rw [Thread.remembers_asking, not_exists]
        exact pass_of_direct? hq hdirect

/-- A step of a visit that leads. -/
theorem visitStep {visit : Thread Unit} (hthread : s.threads[0]? = some visit) (hvisit : visit.Visits ref)
    (hleads : supply.isLeader = true) : VisitStep ref s (s.step 0 supply) visit := by
  cases hvisit with
  | @beginning next h =>
    have hremembers : ¬ (Thread.asking (Program.ask .isLeader next)).Remembers ref.uid := by
      rw [Thread.remembers_asking]
      rintro ⟨record, hq⟩
      cases hq
    rw [step_direct hthread rfl rfl, hleads]
    exact .of_same (getElem?_put hthread _) (.asking h) rfl rfl Thread.not_makesSlot_asking hremembers
  | @asking program h =>
    cases program with
    | done a =>
      have hremembers : ¬ (Thread.asking (Program.done a)).Remembers ref.uid := by
        rintro ⟨record, next, hq⟩
        cases hq
      rw [step_done hthread]
      exact .of_same hthread (.asking h) rfl rfl Thread.not_makesSlot_asking hremembers
    | ask q next => exact visitStep_ask hthread h.1 h.2
  | @working task next serves h =>
    have hkeeps := Task.keeps_advance (r := s.registry) serves (s.isFree 0) supply.moment supply.watch
    have hremembers : ¬ (Thread.working task next).Remembers ref.uid := by
      rintro ⟨record, next', hq⟩
      cases hq
    rw [step_working hthread]
    refine ⟨⟨_, getElem?_put hthread _, ?_⟩, ?_, ?_⟩
    · split
      · exact .asking (h _)
      · exact .working hkeeps.serves h
    · rw [Thread.makesSlot_working]
      exact hkeeps.slot
    · exact ⟨fun hnone => ⟨hnone, hremembers⟩, fun hnone => hnone.1⟩

/-! ## §3 Removal -/

/-- What a step of the removal does: it goes on removing; what it has let go of stays as it is, and what it lets go of
is not there. -/
structure RemovalStep (v : Removal) (uid : String) (s s' : ReconcilerRun Unit) (removal removal' : Thread Unit) :
    Prop where
  thread : s'.threads[1]? = some removal'
  removes : removal'.Removes v uid
  slot : removal'.HasLetGo uid ∧ s'.registry.slot? uid ≠ none ↔ removal.HasLetGo uid ∧ s.registry.slot? uid ≠ none
  pass : v.HasForgotten removal' ∧ s'.passes.get? uid ≠ none ↔ v.HasForgotten removal ∧ s.passes.get? uid ≠ none

theorem not_hasLetGo_program (v : Removal) (uid : String) : ¬ (Thread.asking v.program).HasLetGo uid := by
  cases v <;> exact Thread.not_hasLetGo_ask

theorem not_hasLetGo_rest (v : Removal) (uid : String) : ¬ (Thread.asking v.rest).HasLetGo uid := by
  cases v <;> exact Thread.not_hasLetGo_ask

/-- The step in which the passes are forgotten. -/
theorem removalStep_forget (hthread : s.threads[1]? = some (.asking v.program)) {passes : Dictionary PassRecord}
    (hnone : passes.get? uid = none) :
    RemovalStep v uid s ({ s with passes }.put 1 (.asking v.rest)) (.asking v.program) (.asking v.rest) where
  thread := getElem?_put hthread _
  removes := .forgotten
  slot := ⟨fun h => absurd h.1 (not_hasLetGo_rest v uid), fun h => absurd h.1 (not_hasLetGo_program v uid)⟩
  pass := ⟨fun h => absurd hnone h.2, fun h => absurd rfl h.1⟩

theorem removalStep_beginning (hthread : s.threads[1]? = some (.asking v.program)) (hv : v.Covers uid) :
    RemovalStep v uid s (s.step 1 supply) (.asking v.program) (.asking v.rest) := by
  cases v with
  | teardown uid' =>
    obtain rfl : uid' = uid := hv
    rw [step_direct hthread rfl rfl]
    refine removalStep_forget hthread ?_
    rw [Dictionary.get?_erase, if_pos rfl]
  | prune live =>
    have hdead : uid ∉ live := hv
    have hgone : live.contains uid = false := by simpa using hdead
    rw [step_direct hthread rfl rfl]
    refine removalStep_forget hthread ?_
    rw [Dictionary.get?_filter _ live.contains, hgone]
    rfl

/-- When the passes are forgotten, the slots are next. -/
theorem removalStep_forgotten (hthread : s.threads[1]? = some (.asking v.rest)) (hv : v.Covers uid) :
    ∃ removal', RemovalStep v uid s (s.step 1 supply) (.asking v.rest) removal' := by
  have hwork {task : Task} (hremoves : task.Removes uid) (hunfinished : task.result? = none)
      (hleft : ¬ task.HasLetGo uid) {next : TaskResult → Reconciling Unit} (hnext : ∀ r, next r = Program.done ()) :
      RemovalStep v uid s (s.put 1 (.working task next)) (.asking v.rest) (.working task next) :=
    { thread := getElem?_put hthread _
      removes := .working hremoves hunfinished hnext
      slot := by
        rw [Thread.hasLetGo_working]
        exact ⟨fun h => absurd h.1 hleft, fun h => absurd h.1 (not_hasLetGo_rest v uid)⟩
      pass := ⟨fun h => ⟨fun heq => v.rest_ne_program (Thread.asking.inj heq), h.2⟩, fun h => ⟨nofun, h.2⟩⟩ }
  cases v with
  | teardown uid' =>
    obtain rfl : uid' = uid := hv
    rw [step_task hthread rfl]
    exact ⟨_, hwork ⟨rfl, fun live h => by cases h⟩ rfl (fun h => h.2 (List.mem_singleton.mpr rfl)) fun _ => rfl⟩
  | prune live =>
    rw [step_task hthread rfl]
    refine ⟨_, hwork ⟨rfl, fun live' h => ?_⟩ rfl (fun h => h.1 live rfl) fun _ => rfl⟩
    cases h
    exact hv

/-- A step of the task that takes the slots away. -/
theorem removalStep_working {task : Task} {next : TaskResult → Reconciling Unit} (hagrees : task.Agrees s.registry)
    (hthread : s.threads[1]? = some (.working task next)) (hremoves : task.Removes uid)
    (hunfinished : task.result? = none) (hnext : ∀ r, next r = Program.done ()) :
    ∃ removal', RemovalStep v uid s (s.step 1 supply) (.working task next) removal' := by
  obtain ⟨hremoves', hkept, hgone⟩ := Task.letsGo_advance hagrees hremoves (s.isFree 1) supply.moment supply.watch
  have hforgotten {t : Thread Unit} (h : t ≠ .asking v.program) :
      v.HasForgotten t ∧ s.passes.get? uid ≠ none ↔
        v.HasForgotten (.working task next) ∧ s.passes.get? uid ≠ none :=
    and_congr_left fun _ => ⟨fun _ => nofun, fun _ => h⟩
  rw [step_working hthread]
  cases hresult : (task.advance s.registry (s.isFree 1) supply.moment supply.watch).2.result? with
  | some r =>
    -- the task has ended, so it had let go of all policies before
    have hlet : task.HasLetGo uid :=
      Task.hasLetGo_of_isSome_result? hremoves.goal hunfinished (Option.isSome_iff_exists.mpr ⟨r, hresult⟩) uid
    refine ⟨_, getElem?_put hthread _, ?_, ?_, hforgotten ?_⟩
    · simp only [hnext]
      exact .ended
    · simp only [hnext]
      rw [Thread.hasLetGo_working]
      have hended : (Thread.asking (Program.done ())).HasLetGo uid := .inl rfl
      exact ⟨fun h => ⟨hlet, (hkept hlet).2 ▸ h.2⟩, fun h => ⟨hended, (hkept hlet).2.symm ▸ h.2⟩⟩
    · simp only [hnext]
      cases v <;> exact nofun
  | none =>
    refine ⟨_, getElem?_put hthread _, .working hremoves' hresult hnext, ?_, hforgotten nofun⟩
    rw [Thread.hasLetGo_working, Thread.hasLetGo_working]
    constructor
    · rintro ⟨hlet', hslot⟩
      by_cases hlet : task.HasLetGo uid
      · exact ⟨hlet, (hkept hlet).2 ▸ hslot⟩
      · exact absurd (hgone hlet hlet') hslot
    · rintro ⟨hlet, hslot⟩
      exact ⟨(hkept hlet).1, (hkept hlet).2.symm ▸ hslot⟩

/-- A step of the removal. -/
theorem exists_removalStep (hc : Consistent P s) {removal : Thread Unit} (hthread : s.threads[1]? = some removal)
    (hremoves : removal.Removes v uid) (hv : v.Covers uid) :
    ∃ removal', RemovalStep v uid s (s.step 1 supply) removal removal' := by
  cases hremoves with
  | beginning => exact ⟨_, removalStep_beginning hthread hv⟩
  | forgotten => exact removalStep_forgotten hthread hv
  | @working task next hremoves hunfinished hnext =>
    have hagrees : task.Agrees s.registry := by
      refine hc.agrees (k := 1) ?_
      rw [getElem?_tasks, hthread]
      rfl
    exact removalStep_working hagrees hthread hremoves hunfinished hnext
  | ended =>
    rw [step_done hthread]
    exact ⟨_, hthread, .ended, .rfl, .rfl⟩

/-! ## §4 Revival -/

/-- A visit and a removal of its policy are under way. -/
structure IsUnderWay (ref : PolicyRef) (v : Removal) (s : ReconcilerRun Unit) : Prop where
  consistent : Consistent (fun _ => True) s
  size : s.threads.size = 2
  visit : ∃ visit, s.threads[0]? = some visit ∧ visit.Visits ref
  removal : ∃ removal, s.threads[1]? = some removal ∧ removal.Removes v ref.uid

/-- Something is there that the removal has let go of. -/
def IsRevived (s : ReconcilerRun Unit) (v : Removal) (uid : String) : Prop :=
  ∃ removal, s.threads[1]? = some removal ∧
    (removal.HasLetGo uid ∧ s.registry.slot? uid ≠ none ∨ v.HasForgotten removal ∧ s.passes.get? uid ≠ none)

theorem isRevived_iff {removal : Thread Unit} (h : s.threads[1]? = some removal) :
    s.IsRevived v uid ↔
      removal.HasLetGo uid ∧ s.registry.slot? uid ≠ none ∨ v.HasForgotten removal ∧ s.passes.get? uid ≠ none := by
  simp [IsRevived, h]

theorem revives_iff {visit removal : Thread Unit} (hvisit : s.threads[0]? = some visit)
    (hremoval : s.threads[1]? = some removal) (i : Nat) :
    s.Revives v uid i ↔
      i = 0 ∧ (visit.Remembers uid ∧ v.HasForgotten removal ∨ visit.MakesSlot uid ∧ removal.HasLetGo uid) := by
  simp [Revives, hvisit, hremoval]

/-- A step of the visit and the removal: what has been let go of is there after the step if it was there before, or if
the step brings it back. -/
theorem IsUnderWay.step (h : IsUnderWay ref v s) (hv : v.Covers ref.uid) (i : Nat) (hleads : supply.isLeader = true) :
    IsUnderWay ref v (s.step i supply) ∧
      ((s.step i supply).IsRevived v ref.uid ↔ s.IsRevived v ref.uid ∨ s.Revives v ref.uid i) := by
  have hconsistent : Consistent (fun _ => True) (s.step i supply) := h.consistent.threadStep i fun _ _ => trivial
  have hsize : (s.step i supply).threads.size = 2 := (size_step s i supply).trans h.size
  obtain ⟨visit, hvisit, hvisits⟩ := h.visit
  obtain ⟨removal, hremoval, hremoves⟩ := h.removal
  match i with
  | 0 =>
    obtain ⟨hvisits', hslot, hpass⟩ := visitStep hvisit hvisits hleads
    have hremoval' : (s.step 0 supply).threads[1]? = some removal :=
      (getElem?_step_ne Nat.zero_ne_one).trans hremoval
    refine ⟨⟨hconsistent, hsize, hvisits', removal, hremoval', hremoves⟩, ?_⟩
    rw [isRevived_iff hremoval', isRevived_iff hremoval, revives_iff hvisit hremoval, ne_eq, hslot, ne_eq, hpass]
    grind
  | 1 =>
    obtain ⟨removal', hstep⟩ : ∃ removal', RemovalStep v ref.uid s (s.step 1 supply) removal removal' :=
      exists_removalStep h.consistent hremoval hremoves hv
    have hvisit' : (s.step 1 supply).threads[0]? = some visit := (getElem?_step_ne Nat.one_ne_zero).trans hvisit
    refine ⟨⟨hconsistent, hsize, ⟨visit, hvisit', hvisits⟩, removal', hstep.thread, hstep.removes⟩, ?_⟩
    rw [isRevived_iff hstep.thread, isRevived_iff hremoval, revives_iff hvisit hremoval, hstep.slot, hstep.pass]
    simp
  | i + 2 =>
    have hnone : s.threads[i + 2]? = none := Array.getElem?_eq_none (h.size ▸ Nat.le_add_left 2 i)
    rw [step_none hnone, revives_iff hvisit hremoval]
    exact ⟨h, by simp⟩

/-- What has been let go of is there in the end if it was there at first, or if a step has brought it back. -/
theorem IsUnderWay.run (h : IsUnderWay ref v s) (hv : v.Covers ref.uid) {events : List (Nat × Supply)}
    (hleads : ∀ e ∈ events, e.2.isLeader = true) :
    IsUnderWay ref v (s.run events) ∧
      ((s.run events).IsRevived v ref.uid ↔ s.IsRevived v ref.uid ∨
        ∃ before e after, events = before ++ e :: after ∧ (s.run before).Revives v ref.uid e.1) := by
  induction events generalizing s with
  | nil => exact ⟨h, by simp [ReconcilerRun.run]⟩
  | cons e events ih =>
    obtain ⟨hhead, htail⟩ := List.forall_mem_cons.mp hleads
    obtain ⟨hstep, hrevived⟩ := h.step hv e.1 hhead
    obtain ⟨hrun, hrest⟩ := ih hstep htail
    refine ⟨hrun, hrest.trans ?_⟩
    rw [hrevived]
    constructor
    · rintro ((hs | hfirst) | ⟨before, e', after, rfl, hlater⟩)
      · exact .inl hs
      · exact .inr ⟨[], e, events, rfl, hfirst⟩
      · exact .inr ⟨e :: before, e', after, rfl, hlater⟩
    · rintro (hs | ⟨before, e', after, hevents, hlater⟩)
      · exact .inl (.inl hs)
      · cases before with
        | nil =>
          cases hevents
          exact .inl (.inr hlater)
        | cons first before =>
          cases hevents
          exact .inr ⟨before, e', after, rfl, hlater⟩

/-- A replica that leads, two hours after the beginning of time. -/
def afternoon : Supply := { isLeader := true, now := ⟨7200, 0⟩, moment := ⟨0⟩ }

/-- Steps of the visit, the removal, and the visit again. -/
def turns (visit removal rest : Nat) : List (Nat × Supply) :=
  (List.replicate visit 0 ++ List.replicate removal 1 ++ List.replicate rest 0).map (·, afternoon)

end ReconcilerRun

end Reaper
