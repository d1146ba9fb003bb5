import Reaper.Proofs.Registry.Concurrency
import Reaper.Reconciler.Thread

/-!
Threads of a reconciler as tasks on its registry.

Whatever the programs of the threads are, what they do to the registry are steps of tasks, so the registry stays sound
and agrees with the tasks that are under way (`Consistent.threadStep`).

  §1 Steps — what the step of a thread is, by what the thread is about to do.
  §2 Tasks — the tasks of the threads as a run of the registry.
-/

namespace Reaper

namespace RegistryRun

variable {P : Bool → Prop} {s : RegistryRun}

/-- A task that is at work on no slot takes the place of another one. -/
theorem Consistent.put (h : Consistent P s) {r : Registry} (hr : Registry.SameWatches s.registry r) (i : Nat)
    {t : Task} (ht : t.Agrees r) (hholds : t.holds? = none) :
    Consistent P { registry := r, tasks := s.tasks.setIfInBounds i t } := by
  have htask {k : Nat} {u : Task} (hu : (s.tasks.setIfInBounds i t)[k]? = some u) :
      u = t ∨ s.tasks[k]? = some u := by
    rw [Array.getElem?_setIfInBounds] at hu
    split at hu
    · split at hu
      · exact .inl (Option.some.inj hu).symm
      · cases hu
    · exact .inr hu
  have hagrees {u : Task} (hu : u.Agrees s.registry) : u.Agrees r := by
    refine hu.spares (hr.spares (u.holds?.elim 0 Nat.succ)) ?_
    cases u.holds? <;> simp
  exact
    { sound := h.sound.sameWatches hr
      agrees := by
        intro k u hu
        rcases htask hu with rfl | hu
        · exact ht
        · exact hagrees (h.agrees hu)
      exclusive := by
        intro k l u v j hu hv huj hvj
        rcases htask hu with rfl | hu
        · rw [hholds] at huj
          cases huj
        · rcases htask hv with rfl | hv
          · rw [hholds] at hvj
            cases hvj
          · exact h.exclusive hu hv huj hvj }

end RegistryRun

namespace ReconcilerRun

variable {α : Type} {P : Bool → Prop} {s : ReconcilerRun α}

/-! ## §1 Steps -/

variable {i : Nat} {supply : Supply}

theorem getElem?_put {t : Thread α} (h : s.threads[i]? = some t) (t' : Thread α) :
    (s.put i t').threads[i]? = some t' := by
  obtain ⟨hi, -⟩ := Array.getElem?_eq_some_iff.mp h
  exact Array.getElem?_setIfInBounds_self_of_lt hi

theorem getElem?_put_ne {j : Nat} (h : i ≠ j) (t : Thread α) : (s.put i t).threads[j]? = s.threads[j]? :=
  Array.getElem?_setIfInBounds_ne h

theorem step_done {a : α} (h : s.threads[i]? = some (.asking (Program.done a))) : s.step i supply = s := by
  unfold step
  rw [h]

/-- A question to the registry is worked on from now on. -/
theorem step_task {q : Question} {next : q.Answer → Reconciling α} {task : Task} {read : TaskResult → q.Answer}
    (h : s.threads[i]? = some (.asking (Program.ask q next))) (hq : q.task? = some (task, read)) :
    s.step i supply = s.put i (.working task fun r => next (read r)) := by
  unfold step
  rw [h]
  dsimp only
  rw [hq]

/-- A question to the world outside is answered at once. -/
theorem step_direct {q : Question} {next : q.Answer → Reconciling α} {a : q.Answer} {passes : Dictionary PassRecord}
    (h : s.threads[i]? = some (.asking (Program.ask q next))) (htask : q.task? = none)
    (hq : q.direct? supply s.passes = some (a, passes)) :
    s.step i supply = { s with passes, registry := q.spend supply s.registry }.put i (.asking (next a)) := by
  unfold step
  rw [h]
  dsimp only
  rw [htask]
  dsimp only
  rw [hq]

theorem step_stuck {q : Question} {next : q.Answer → Reconciling α}
    (h : s.threads[i]? = some (.asking (Program.ask q next))) (htask : q.task? = none)
    (hq : q.direct? supply s.passes = none) : s.step i supply = s := by
  unfold step
  rw [h]
  dsimp only
  rw [htask]
  dsimp only
  rw [hq]

/-- The task of a thread goes on, and the thread leaves it if it has ended. -/
theorem step_working {task : Task} {next : TaskResult → Reconciling α}
    (h : s.threads[i]? = some (.working task next)) :
    let left := task.advance s.registry (s.isFree i) supply.moment supply.watch
    s.step i supply = { s with registry := left.1 }.put i
      (match left.2.result? with
      | some r => .asking (next r)
      | none => .working left.2 next) := by
  intro left
  unfold step
  rw [h]
  dsimp only
  split <;> rename_i hresult <;> rw [hresult]

theorem step_none (h : s.threads[i]? = none) : s.step i supply = s := by
  unfold step
  rw [h]

/-- A step changes nothing, or puts a thread in place of the one that goes on. -/
theorem step_eq_or (s : ReconcilerRun α) (i : Nat) (supply : Supply) :
    s.step i supply = s ∨ ∃ registry passes t, s.step i supply = { s with registry, passes }.put i t := by
  cases hthread : s.threads[i]? with
  | none => exact .inl (step_none hthread)
  | some t =>
    match t with
    | .asking (Program.done _) => exact .inl (step_done hthread)
    | .asking (Program.ask q next) =>
      cases htask : q.task? with
      | some work => exact .inr ⟨_, _, _, step_task hthread htask⟩
      | none =>
        cases hdirect : q.direct? supply s.passes with
        | none => exact .inl (step_stuck hthread htask hdirect)
        | some answered => exact .inr ⟨_, _, _, step_direct hthread htask hdirect⟩
    | .working task next => exact .inr ⟨_, _, _, step_working hthread⟩

/-- A step of one thread leaves the others where they are. -/
theorem getElem?_step_ne {j : Nat} (h : i ≠ j) : (s.step i supply).threads[j]? = s.threads[j]? := by
  obtain hstep | ⟨registry, passes, t, hstep⟩ := s.step_eq_or i supply
  · rw [hstep]
  · rw [hstep]
    exact getElem?_put_ne h t

theorem size_step (s : ReconcilerRun α) (i : Nat) (supply : Supply) :
    (s.step i supply).threads.size = s.threads.size := by
  obtain hstep | ⟨registry, passes, t, hstep⟩ := s.step_eq_or i supply
  · rw [hstep]
  · rw [hstep]
    exact Array.size_setIfInBounds

/-! ## §2 Tasks -/

/-- What a thread counts as that works on no task. -/
def idle : Task := { goal := .read, uids := [], point := .finished (.found none none) }

/-- The registry with the tasks that the threads work on. -/
def tasks (s : ReconcilerRun α) : RegistryRun :=
  { registry := s.registry, tasks := s.threads.map fun t => t.task?.getD idle }

/-- The registry and the tasks of the threads agree. -/
abbrev Consistent (P : Bool → Prop) (s : ReconcilerRun α) : Prop := RegistryRun.Consistent P s.tasks

theorem getElem?_tasks (s : ReconcilerRun α) (i : Nat) :
    s.tasks.tasks[i]? = (s.threads[i]?).map fun t => t.task?.getD idle := Array.getElem?_map ..

theorem isFree_tasks (s : ReconcilerRun α) (i slot : Nat) : s.tasks.isFree i slot = s.isFree i slot := by
  unfold RegistryRun.isFree isFree
  have hsize : s.tasks.tasks.size = s.threads.size := Array.size_map ..
  have hholds (j : Nat) : s.tasks.tasks[j]?.bind Task.holds? =
      s.threads[j]?.bind fun t => t.task?.bind Task.holds? := by
    rw [getElem?_tasks]
    cases s.threads[j]? with
    | none => rfl
    | some t =>
      cases ht : t.task? with
      | none => simp [ht, idle, Task.holds?]
      | some task => simp [ht]
  simp only [hsize, hholds]

/-- Putting a thread in place of another puts its task in place. -/
theorem tasks_put (s : ReconcilerRun α) (i : Nat) (t : Thread α) :
    (s.put i t).tasks = { s.tasks with tasks := s.tasks.tasks.setIfInBounds i (t.task?.getD idle) } := by
  unfold put tasks
  rw [Array.map_setIfInBounds]

/-- A question to the registry is worked on by a task that has not begun. -/
theorem agrees_of_task? {q : Question} {task : Task} {read : TaskResult → q.Answer} (h : q.task? = some (task, read))
    (r : Registry) : task.Agrees r ∧ task.holds? = none := by
  have hop : ∃ op : Operation, op.task = task := by
    cases q <;> cases h
    case state uid => exact ⟨.read uid, rfl⟩
    case setState uid s => exact ⟨.setState uid s, rfl⟩
    case ensure uid target rate => exact ⟨.ensure uid target (.ofInt rate), rfl⟩
    case handles uid => exact ⟨.read uid, rfl⟩
    case remove uid => exact ⟨.remove uid, rfl⟩
    case prune live => exact ⟨.prune live, rfl⟩
  obtain ⟨op, rfl⟩ := hop
  exact op.agrees_task r

/-- A pass changes limiters only. -/
theorem sameWatches_spend (q : Question) (supply : Supply) (r : Registry) :
    Registry.SameWatches r (q.spend supply r) := by
  cases q <;> exact ⟨rfl, rfl, fun _ => rfl, fun _ => rfl, rfl⟩

theorem agrees_idle (r : Registry) : idle.Agrees r := Task.agrees_finish idle _

/-- The step of a thread that works on a task is the step of its task, as far as the registry goes. -/
theorem step_tasks {task : Task} {next : TaskResult → Reconciling α} (h : s.threads[i]? = some (.working task next)) :
    let left := task.advance s.registry (s.isFree i) supply.moment supply.watch
    s.tasks.step ⟨i, supply.moment, supply.watch⟩ =
      { registry := left.1, tasks := s.tasks.tasks.setIfInBounds i left.2 } := by
  have htask : s.tasks.tasks[i]? = some task := by
    rw [getElem?_tasks, h]
    rfl
  have hfree : s.tasks.isFree i = s.isFree i := funext (s.isFree_tasks i)
  unfold RegistryRun.step
  simp only [htask, hfree]
  rfl

/-- Whatever a thread does next, the registry and the tasks agree after it. -/
theorem Consistent.threadStep (h : Consistent P s) (i : Nat) {supply : Supply}
    (hP : ∀ cancelled, supply.watch = .ok cancelled → P cancelled) : Consistent P (s.step i supply) := by
  cases hthread : s.threads[i]? with
  | none =>
    rw [step_none hthread]
    exact h
  | some t =>
    match t with
    | .asking (Program.done _) =>
      rw [step_done hthread]
      exact h
    | .asking (Program.ask q next) =>
      cases htask : q.task? with
      | some work =>
        obtain ⟨hagrees, hholds⟩ := agrees_of_task? htask s.registry
        rw [step_task hthread htask, Consistent, tasks_put]
        exact h.put (.refl _) i hagrees hholds
      | none =>
        cases hdirect : q.direct? supply s.passes with
        | none =>
          rw [step_stuck hthread htask hdirect]
          exact h
        | some answered =>
          rw [step_direct hthread htask hdirect, Consistent, tasks_put]
          exact h.put (sameWatches_spend q supply s.registry) i (agrees_idle _) rfl
    | .working task next =>
      -- the thread takes the step of its task, and leaves it if it has ended
      have hstep : RegistryRun.Consistent P (s.tasks.step ⟨i, supply.moment, supply.watch⟩) := h.step hP
      rw [step_tasks hthread] at hstep
      rw [step_working hthread, Consistent, tasks_put]
      split
      · have hidle := hstep.put (.refl _) i (agrees_idle _) rfl
        dsimp only at hidle
        rw [Array.setIfInBounds_setIfInBounds] at hidle
        exact hidle
      · exact hstep

end ReconcilerRun

end Reaper
