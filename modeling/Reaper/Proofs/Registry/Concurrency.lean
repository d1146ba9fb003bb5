import Reaper.Proofs.Registry.Tasks

/-!
Operations on the registry side by side.

However the steps of any number of operations are interleaved, the registry stays sound, every task agrees with it, and
no two tasks are at work on one slot (`Consistent`). So no watch is lost or doubled (`watches_neither_leak_nor_double`).

  §1 Operations  — the operations that a registry offers, as tasks.
  §2 Consistency — what every step of a run keeps.
  §3 Watches     — what follows for the watches and the index.
-/

namespace Reaper

/-! ## §1 Operations -/

/-- An operation on the registry. -/
inductive Operation where
  | ensure (uid : String) (target : WatchTarget) (rate : Binary64)
  | remove (uid : String)
  | prune (live : List String)
  | setState (uid : String) (s : PolicyState)
  | read (uid : String)
  | shutdown

def Operation.task : Operation → Task
  | ensure uid target rate => .ensure uid target rate
  | remove uid => .remove uid
  | prune live => .prune live
  | setState uid s => .setState uid s
  | read uid => .read uid
  | shutdown => .shutdown

/-- An operation that has not begun is not at work on a slot and waits for none. -/
theorem Operation.agrees_task (op : Operation) (r : Registry) : op.task.Agrees r ∧ op.task.holds? = none := by
  have hfree {t : Task} (h : t.point = .lookup ∨ ∃ live, t.point = .listing live) : t.Agrees r ∧ t.holds? = none := by
    have hh : t.holds? = none := by
      rcases h with h | ⟨live, h⟩ <;> simp [Task.holds?, h]
    refine ⟨Task.agrees_of_free (fun i hq => ?_) hh, hh⟩
    rcases h with h | ⟨live, h⟩ <;> simp [h] at hq
  cases op with
  | ensure uid target rate => exact hfree (.inl rfl)
  | remove uid => exact hfree (.inl rfl)
  | read uid => exact hfree (.inl rfl)
  | prune live => exact hfree (.inr ⟨live, rfl⟩)
  | shutdown => exact hfree (.inr ⟨[], rfl⟩)
  | setState uid s =>
    show (Task.setState uid s).Agrees r ∧ (Task.setState uid s).holds? = none
    unfold Task.setState
    split <;> exact hfree (.inl rfl)

namespace RegistryRun

/-- Operations side by side on a registry that is empty at first. -/
def begin (ops : List Operation) : RegistryRun := { registry := {}, tasks := (ops.map Operation.task).toArray }

/-! ## §2 Consistency -/

/-- The registry and the tasks on it agree. -/
structure Consistent (P : Bool → Prop) (s : RegistryRun) : Prop where
  sound : s.registry.Sound P
  agrees : ∀ {k : Nat} {t : Task}, s.tasks[k]? = some t → t.Agrees s.registry
  /-- no two tasks are at work on one slot -/
  exclusive : ∀ {k l : Nat} {t u : Task} {i : Nat}, s.tasks[k]? = some t → s.tasks[l]? = some u →
    t.holds? = some i → u.holds? = some i → k = l

variable {P : Bool → Prop} {s : RegistryRun}

theorem consistent_begin (ops : List Operation) : Consistent P (begin ops) := by
  have htask {k : Nat} {t : Task} (ht : (begin ops).tasks[k]? = some t) : ∃ op : Operation, op.task = t := by
    simp only [begin, List.getElem?_toArray, List.getElem?_map, Option.map_eq_some_iff] at ht
    obtain ⟨op, -, hop⟩ := ht
    exact ⟨op, hop⟩
  exact
    { sound := Registry.sound_empty
      agrees := by
        intro k t ht
        obtain ⟨op, rfl⟩ := htask ht
        exact (op.agrees_task _).1
      exclusive := by
        intro k l t u i ht _ hi
        obtain ⟨op, rfl⟩ := htask ht
        simp [(op.agrees_task {}).2] at hi }

/-- A slot that is free for a task is one that no other task is at work on. -/
theorem eq_of_isFree {k i l : Nat} {u : Task} (h : s.isFree k i = true) (hu : s.tasks[l]? = some u)
    (hi : u.holds? = some i) : l = k := by
  obtain ⟨hl, -⟩ := Array.getElem?_eq_some_iff.mp hu
  unfold isFree at h
  have hfree := List.all_eq_true.mp h l (List.mem_range.mpr hl)
  simpa [hu, hi] using hfree

/-- What the next step does: a task takes a step on a slot that no other task is at work on. -/
theorem Consistent.leaves (h : Consistent P s) {e : RegistryEvent}
    (hP : ∀ cancelled, e.watch = .ok cancelled → P cancelled) {t : Task} (ht : s.tasks[e.task]? = some t) :
    ∃ i, Task.Leaves P s.registry i (t.advance s.registry (s.isFree e.task) e.now e.watch) ∧
      ∀ {l : Nat} {u : Task}, s.tasks[l]? = some u → u.holds? = some i → l = e.task := by
  obtain ⟨i, hleaves, hi⟩ := Task.leaves_advance h.sound (h.agrees ht) hP
  refine ⟨i, hleaves, fun hu hui => ?_⟩
  rcases hi with hti | hfree | rfl
  · exact h.exclusive hu ht hui hti
  · exact eq_of_isFree hfree hu hui
  · -- nobody is at work on a slot that is not there yet
    obtain ⟨uid, -, -, hslot, -⟩ := (h.agrees hu).working hui
    exact absurd (h.sound.lt_size hslot) (Nat.lt_irrefl _)

/-- Every step keeps a run consistent. -/
theorem Consistent.step (h : Consistent P s) {e : RegistryEvent}
    (hP : ∀ cancelled, e.watch = .ok cancelled → P cancelled) : Consistent P (s.step e) := by
  unfold RegistryRun.step
  split
  · exact h
  · rename_i t ht
    obtain ⟨i, hleaves, hothers⟩ := h.leaves hP ht
    generalize t.advance s.registry (s.isFree e.task) e.now e.watch = left at hleaves
    -- a task after the step is the one that went on, or one that is not at work on the slot of the step
    have htask {l : Nat} {u : Task} (hu : (s.tasks.setIfInBounds e.task left.2)[l]? = some u) :
        l = e.task ∧ u = left.2 ∨ s.tasks[l]? = some u ∧ u.holds? ≠ some i := by
      rw [Array.getElem?_setIfInBounds] at hu
      split at hu
      · rename_i hl
        split at hu
        · exact .inl ⟨hl.symm, (Option.some.inj hu).symm⟩
        · cases hu
      · rename_i hl
        exact .inr ⟨hu, fun hui => hl (hothers hu hui).symm⟩
    exact
      { sound := hleaves.sound
        agrees := by
          intro l u hu
          rcases htask hu with ⟨-, rfl⟩ | ⟨hu, hui⟩
          · exact hleaves.agrees
          · exact (h.agrees hu).spares hleaves.spares hui
        exclusive := by
          intro k l t u j ht hu hj hj'
          rcases htask ht with ⟨rfl, rfl⟩ | ⟨ht, hti⟩ <;> rcases htask hu with ⟨rfl, rfl⟩ | ⟨hu, hui⟩
          · rfl
          · exact absurd (hleaves.holds hj ▸ hj') hui
          · exact absurd (hleaves.holds hj' ▸ hj) hti
          · exact h.exclusive ht hu hj hj' }

theorem Consistent.run (h : Consistent P s) {events : List RegistryEvent}
    (hP : ∀ e ∈ events, ∀ cancelled, e.watch = .ok cancelled → P cancelled) : Consistent P (s.run events) := by
  induction events generalizing s with
  | nil => exact h
  | cons e events ih =>
    obtain ⟨hhead, htail⟩ := List.forall_mem_cons.mp hP
    exact ih (h.step hhead) htail

/-- What a task leaves is what the next step makes of the registry. -/
theorem registry_step {e : RegistryEvent} {t : Task} (ht : s.tasks[e.task]? = some t) :
    (s.step e).registry = (t.advance s.registry (s.isFree e.task) e.now e.watch).1 := by
  unfold RegistryRun.step
  rw [ht]

/-! ## §3 Watches -/

/-- A policy gets a new watch only when it has none that is not cancelled. -/
theorem Consistent.fresh (h : Consistent (fun _ => True) s) {e : RegistryEvent} {w : Nat} {watch : Watch}
    (hnone : s.registry.watches[w]? = none) (hsome : (s.step e).registry.watches[w]? = some watch) (w' : Nat) :
    ¬ s.registry.IsLive watch.owner w' := by
  cases ht : s.tasks[e.task]? with
  | none =>
    unfold RegistryRun.step at hsome
    rw [ht] at hsome
    simp [hnone] at hsome
  | some t =>
    obtain ⟨i, hleaves, -⟩ := h.leaves (fun _ _ => trivial) ht
    rw [registry_step ht] at hsome
    exact hleaves.fresh hnone hsome w'

/-- A slot that has been retired stays so. -/
theorem Consistent.retired_run (h : Consistent (fun _ => True) s) {i : Nat}
    (hretired : (s.registry.slotAt i).retired = true) (events : List RegistryEvent) :
    ((s.run events).registry.slotAt i).retired = true := by
  induction events generalizing s with
  | nil => exact hretired
  | cons e events ih =>
    refine ih (h.step fun _ _ => trivial) ?_
    cases ht : s.tasks[e.task]? with
    | none =>
      unfold RegistryRun.step
      rwa [ht]
    | some t =>
      obtain ⟨j, hleaves, -⟩ := h.leaves (fun _ _ => trivial) ht
      rw [registry_step ht]
      exact hleaves.spares.retired hretired

/-- Whatever operations are begun side by side, and however they are interleaved: a policy has at most one watch that is
not cancelled; a watch appears, and is waited for, only when its policy has none; a slot that is retired is not found
again; and a watch that is not cancelled is held by the slot of its policy. As long as no watch is cancelled before it
has opened, the watches that the slots of the index hold are not cancelled. -/
theorem watches_neither_leak_nor_double (ops : List Operation) (events : List RegistryEvent) :
    let s := (begin ops).run events
    (∀ uid w w', s.registry.IsLive uid w → s.registry.IsLive uid w' → w = w') ∧
    (∀ (e : RegistryEvent) (w : Nat) (watch : Watch), s.registry.watches[w]? = none →
      (s.step e).registry.watches[w]? = some watch → ∀ w', ¬ s.registry.IsLive watch.owner w') ∧
    (∀ (k : Nat) (t : Task) (i : Nat) (outcome : EnsureOutcome), s.tasks[k]? = some t → t.point = .opening i outcome →
      ∃ uid rest, t.uids = uid :: rest ∧ ∀ w, ¬ s.registry.IsLive uid w) ∧
    (∀ more uid i, (s.registry.slotAt i).retired = true → (s.run more).registry.slot? uid ≠ some i) ∧
    (∀ uid w, s.registry.IsLive uid w → s.registry.held? uid = some w) ∧
    ((∀ e ∈ events, e.watch ≠ .ok true) → ∀ uid w, s.registry.held? uid = some w → s.registry.IsLive uid w) := by
  intro s
  have h : Consistent (fun _ => True) s := (consistent_begin ops).run fun _ _ _ _ => trivial
  refine ⟨fun uid w w' => h.sound.isLive_unique, fun e w watch => h.fresh, ?_, ?_, fun uid w => h.sound.isHeld, ?_⟩
  · intro k t i outcome ht hpoint
    have hholds : t.holds? = some i := by simp [Task.holds?, hpoint]
    obtain ⟨uid, rest, huids, hslot, hnone⟩ := (h.agrees ht).working hholds
    exact ⟨uid, rest, huids, h.sound.not_isLive hslot hnone⟩
  · intro more uid i hretired hslot
    have hmore : Consistent (fun _ => True) (s.run more) := h.run fun _ _ _ _ => trivial
    have := h.retired_run hretired more
    rw [hmore.sound.inUse hslot] at this
    cases this
  · intro hopen uid w hheld
    have hlive : Consistent (· = false) s := (consistent_begin ops).run fun e he cancelled hwatch => by
      cases cancelled
      · rfl
      · exact absurd hwatch (hopen e he)
    obtain ⟨i, hslot, hw⟩ := Registry.held?_eq_some_iff.mp hheld
    obtain ⟨watch, hwatch, howner, hfalse⟩ := hlive.sound.holds hw
    exact ⟨watch, hwatch, hlive.sound.injective howner hslot, hfalse⟩

/-- A policy is served, removed and served again, side by side. -/
def raceOps : List Operation := [.ensure "p" default (.ofInt 5), .remove "p", .ensure "p" default (.ofInt 5)]

/-- The removal and the second operation come to wait for the slot of the first. The second finds it retired, looks its
policy up again and makes another slot. -/
def raceEvents : List RegistryEvent :=
  [0, 1, 2, 0, 0, 1, 2, 1, 2, 2, 2, 1, 2].map fun task => { task, now := ⟨0⟩, watch := .ok false }

/-- In the end there is one watch that is not cancelled, in the slot of the policy; the retired slot is gone for
good. -/
theorem race_leaves_one_watch :
    let s := (begin raceOps).run raceEvents
    s.isFinished = true ∧ s.registry.watches.size = 2 ∧
      (∀ uid w, s.registry.IsLive uid w ↔ s.registry.held? uid = some w) ∧
      s.registry.held? "p" = some 1 ∧ ∀ more uid, (s.run more).registry.slot? uid ≠ some 0 := by
  obtain ⟨-, -, -, hretired, hheld, hlive⟩ := watches_neither_leak_nor_double raceOps raceEvents
  refine ⟨by decide +kernel, by decide +kernel, fun uid w => ⟨hheld uid w, hlive ?_ uid w⟩, by decide +kernel,
    fun more uid => ?_⟩
  · intro e he
    obtain ⟨task, -, rfl⟩ := List.mem_map.mp he
    simp
  · exact hretired more uid 0 (by decide +kernel)

end RegistryRun

end Reaper
