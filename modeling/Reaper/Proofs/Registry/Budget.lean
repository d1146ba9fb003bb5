import Reaper.Proofs.Binary64.Values
import Reaper.Proofs.Bucket.Rounded
import Reaper.Proofs.Registry.Concurrency
import Reaper.Proofs.Registry.Limiters

/-!
The budget of a policy.

The limiter of a policy is its budget of deletions. However operations on the registry are interleaved, and whatever is
asked of the limiters meanwhile, a policy that nobody removes keeps the limiter that it was given first, and no
operation raises what the limiter holds: a new rate only cuts it to the new capacity (`budget_survives`).

  §1 Operations — operations that remove a policy, and what a task stays while it goes on.
  §2 Runs       — what holds of the limiters in every run.
  §3 Budgets    — what follows for a policy.
-/

namespace Reaper

namespace Task

variable {r : Registry} {t t₀ : Task} {uid : String}

/-! ## §1 Operations -/

/-- The task does not remove the policy. -/
structure KeepsOff (t : Task) (uid : String) : Prop where
  listing : t.goal = .remove → ∀ live, t.point = .listing live → uid ∈ live
  uids : t.goal = .remove → uid ∉ t.uids

/-- A task that goes on does not come to remove further policies. -/
theorem keepsOff_advance (hagrees : t.Agrees r) (h : t.KeepsOff uid) (free : Nat → Bool) (now : Duration)
    (watch : Except WatchError Bool) : (t.advance r free now watch).2.KeepsOff uid := by
  have hkept (hgoal : t.goal = .remove) : (t.advance r free now watch).2.HasLetGo uid := by
    by_cases hlisting : ∃ live, t.point = .listing live
    · obtain ⟨live, hpoint⟩ := hlisting
      have hleft : (t.advance r free now watch).2 = { t with uids := r.stale live, point := .lookup } := by
        simp [advance, hpoint]
      rw [hleft]
      refine ⟨fun _ h => (by cases h), fun hmem => ?_⟩
      have hdead := (List.mem_filter.mp hmem).2
      simp [h.listing hgoal live hpoint] at hdead
    · have hlistings (live : List String) : t.point ≠ .listing live := fun hpoint => hlisting ⟨live, hpoint⟩
      have hremoves : t.Removes uid := ⟨hgoal, fun live hpoint => absurd hpoint (hlistings live)⟩
      exact ((letsGo_advance hagrees hremoves free now watch).kept ⟨hlistings, h.uids hgoal⟩).1
  refine ⟨fun hgoal live hpoint => ?_, fun hgoal => ?_⟩
  · exact absurd hpoint ((hkept ((goal_advance ..).symm.trans hgoal)).1 live)
  · exact (hkept ((goal_advance ..).symm.trans hgoal)).2

/-- What a task stays while it goes on. -/
structure Stays (t₀ t : Task) : Prop where
  goal : t.goal = t₀.goal
  serves : ∀ {uid}, t₀.Serves uid → t.Serves uid
  keepsOff : ∀ {uid}, t₀.KeepsOff uid → t.KeepsOff uid

theorem Stays.refl (t : Task) : Stays t t := ⟨rfl, id, id⟩

theorem Stays.advance (h : Stays t₀ t) (hagrees : t.Agrees r) (free : Nat → Bool) (now : Duration)
    (watch : Except WatchError Bool) : Stays t₀ (t.advance r free now watch).2 where
  goal := (goal_advance ..).trans h.goal
  serves ht := (keeps_advance (h.serves ht) free now watch).serves
  keepsOff ht := keepsOff_advance hagrees (h.keepsOff ht) free now watch

theorem Stays.isProper (h : Stays t₀ t) (ht : t₀.IsProper) : t.IsProper := by
  rcases ht with ⟨uid, ht⟩ | hgoal
  · exact .inl ⟨uid, h.serves ht⟩
  · exact .inr (h.goal.trans hgoal)

end Task

namespace Operation

/-- The operation removes the policy, if it has a slot. -/
def Removes (uid : String) : Operation → Prop
  | ensure .. => False
  | remove k => k = uid
  | prune live => uid ∉ live
  | setState k s => k = uid ∧ s = .notTracked
  | read _ => False
  | shutdown => True

variable {uid : String}

theorem keepsOff_task {op : Operation} (h : ¬ op.Removes uid) : op.task.KeepsOff uid := by
  have hremove {k : String} (hk : k ≠ uid) : (Task.remove k).KeepsOff uid :=
    ⟨fun _ _ hpoint => by (cases hpoint), fun _ hmem => hk (List.mem_singleton.mp hmem).symm⟩
  cases op with
  | ensure k target rate => exact ⟨fun hgoal => (by cases hgoal), fun hgoal => by cases hgoal⟩
  | remove k => exact hremove h
  | prune live =>
    refine ⟨fun _ live' hpoint => ?_, fun _ => List.not_mem_nil⟩
    cases hpoint
    exact Decidable.not_not.mp h
  | setState k s =>
    show (Task.setState k s).KeepsOff uid
    unfold Task.setState
    split
    · exact hremove fun hk => h ⟨hk, ‹_›⟩
    · exact ⟨fun hgoal => (by cases hgoal), fun hgoal => by cases hgoal⟩
  | read k => exact ⟨fun hgoal => (by cases hgoal), fun hgoal => by cases hgoal⟩
  | shutdown => exact absurd trivial h

theorem serves_ensure (uid : String) (target : WatchTarget) (rate : Binary64) :
    (Operation.ensure uid target rate).task.Serves uid :=
  ⟨rfl, fun h => by (cases h), fun _ h => by (cases h), fun _ _ h => by cases h⟩

theorem isProper_task (op : Operation) : op.task.IsProper := by
  cases op with
  | ensure uid target rate => exact .inl ⟨uid, serves_ensure uid target rate⟩
  | remove uid => exact .inr rfl
  | prune live => exact .inr rfl
  | setState uid s =>
    show (Task.setState uid s).IsProper
    unfold Task.setState
    split
    · exact .inr rfl
    · exact .inl ⟨uid, rfl, fun h => by (cases h), fun _ h => by (cases h), fun _ _ h => by cases h⟩
  | read uid => exact .inl ⟨uid, rfl, fun h => by (cases h), fun _ h => by (cases h), fun _ _ h => by cases h⟩
  | shutdown => exact .inr rfl

/-- Only an operation that has a watch has it as its goal. -/
theorem eq_ensure_of_goal {op : Operation} {target : WatchTarget} {rate : Binary64}
    (h : op.task.goal = .ensure target rate) : ∃ uid, op = .ensure uid target rate := by
  cases op with
  | ensure uid target' rate' =>
    cases h
    exact ⟨uid, rfl⟩
  | setState uid s =>
    have hgoal : (Task.setState uid s).goal = .ensure target rate := h
    unfold Task.setState at hgoal
    split at hgoal <;> cases hgoal
  | remove uid => cases h
  | prune live => cases h
  | read uid => cases h
  | shutdown => cases h

end Operation

/-- What happens to a registry: a task goes on, or a limiter is asked for a token. -/
inductive RegistryUse where
  | goOn (e : RegistryEvent)
  | request (limiter : Nat) (now : Duration)

namespace RegistryRun

open Rounding (nearest)

/-- Asks a limiter for a token. -/
def request (s : RegistryRun) (limiter : Nat) (now : Duration) : RegistryRun :=
  { s with
    registry := { s.registry with limiters := s.registry.limiters.modify limiter fun b => (b.request nearest now).1 } }

def use (s : RegistryRun) : RegistryUse → RegistryRun
  | .goOn e => s.step e
  | .request limiter now => s.request limiter now

def uses (s : RegistryRun) (us : List RegistryUse) : RegistryRun := us.foldl use s

/-! ## §2 Runs -/

/-- Nobody shares a limiter with somebody else, and all are at rates on the grid. -/
structure Lending (r : Registry) : Prop where
  lt_size : ∀ {uid l}, r.limiter? uid = some l → l < r.limiters.size
  injective : ∀ {uid uid' l}, r.limiter? uid = some l → r.limiter? uid' = some l → uid = uid'
  onGrid : ∀ {l : Nat} {b : Bucket}, r.limiters[l]? = some b → b.OnGrid

/-- Changing the buckets in place, so that they stay on the grid. -/
theorem Lending.modify {r r' : Registry} (h : Lending r) (hheld : ∀ k, r'.limiter? k = r.limiter? k) {l : Nat}
    {f : Bucket → Bucket} (hlimiters : r'.limiters = r.limiters.modify l f) (hf : ∀ {b}, b.OnGrid → (f b).OnGrid) :
    Lending r' where
  lt_size hl := by
    rw [hlimiters, Array.size_modify]
    exact h.lt_size ((hheld _).symm.trans hl)
  injective hl hl' := h.injective ((hheld _).symm.trans hl) ((hheld _).symm.trans hl')
  onGrid hb := by
    obtain ⟨b', hb', rfl | rfl⟩ := Registry.exists_of_getElem?_modify (hlimiters ▸ hb)
    · exact hf (h.onGrid hb')
    · exact h.onGrid hb'

/-- A policy gets a new limiter. -/
theorem Lending.push {r r' : Registry} (h : Lending r) {uid : String}
    (hheld : ∀ k, r'.limiter? k = if k = uid then some r.limiters.size else r.limiter? k) {b : Bucket}
    (hlimiters : r'.limiters = r.limiters.push b) (hb : b.OnGrid) : Lending r' := by
  -- a limiter that is held after it is the new one, or was held before by the same policy
  have hcases {k : String} {l : Nat} (hl : r'.limiter? k = some l) :
      k = uid ∧ l = r.limiters.size ∨ r.limiter? k = some l ∧ l < r.limiters.size := by
    rw [hheld] at hl
    split at hl
    · rename_i hk
      exact .inl ⟨hk, (Option.some.inj hl).symm⟩
    · exact .inr ⟨hl, h.lt_size hl⟩
  refine ⟨fun {k l} hl => ?_, fun {k k' l} hl hl' => ?_, fun {l b'} hb' => ?_⟩
  · rw [hlimiters, Array.size_push]
    rcases hcases hl with ⟨-, rfl⟩ | ⟨-, hlt⟩ <;> omega
  · rcases hcases hl with ⟨rfl, rfl⟩ | ⟨hl, hlt⟩ <;> rcases hcases hl' with ⟨rfl, heq⟩ | ⟨hl', hlt'⟩
    · rfl
    · exact absurd hlt' (Nat.lt_irrefl _)
    · omega
    · exact h.injective hl hl'
  · obtain rfl | hold := Registry.cases_of_getElem?_push (hlimiters ▸ hb')
    · exact hb
    · exact h.onGrid hold

/-- A policy has a limiter no more. -/
theorem Lending.drop {r r' : Registry} (h : Lending r) {uid : String}
    (hheld : ∀ k, r'.limiter? k = if k = uid then none else r.limiter? k) (hlimiters : r'.limiters = r.limiters) :
    Lending r' := by
  have hold {k : String} {l : Nat} (hl : r'.limiter? k = some l) : r.limiter? k = some l := by
    rw [hheld] at hl
    split at hl
    · cases hl
    · exact hl
  refine ⟨fun hl => ?_, fun hl hl' => h.injective (hold hl) (hold hl'), fun hb => h.onGrid (hlimiters ▸ hb)⟩
  rw [hlimiters]
  exact h.lt_size (hold hl)

/-- Steps of tasks keep limiters apart, if the rates that they set are on the grid. -/
theorem Lending.limiterStep {r r' : Registry} {t : Task} {now : Duration} (h : Lending r) (hs : t.LimiterStep now r r')
    (hrates : ∀ {target rate q}, t.goal = .ensure target rate → Bucket.rate? rate = .ok q → nearest q = q) :
    Lending r' := by
  cases hs with
  | spared hheld hlimiters =>
    refine ⟨fun hl => ?_, fun hl hl' => ?_, fun hb => h.onGrid (hlimiters ▸ hb)⟩
    · rw [hlimiters]
      exact h.lt_size ((hheld _).symm.trans hl)
    · exact h.injective ((hheld _).symm.trans hl) ((hheld _).symm.trans hl')
  | rated _ hgoal hrate _ hheld hlimiters =>
    exact h.modify hheld hlimiters fun hb => hb.setRate (hrates hgoal hrate) now
  | given _ hgoal hrate _ hheld hlimiters => exact h.push hheld hlimiters (Bucket.onGrid_full (hrates hgoal hrate) now)
  | taken _ _ hheld hlimiters => exact h.drop hheld hlimiters

/-- All rates that are to be set are on the grid. -/
def RatesOnGrid (ops : List Operation) : Prop :=
  ∀ uid target rate, Operation.ensure uid target rate ∈ ops → rate.OnGrid

/-- What holds of a run while some operations are under way. -/
structure Budgeted (ops : List Operation) (s : RegistryRun) : Prop where
  consistent : Consistent (fun _ => True) s
  tasks : ∀ {k : Nat} {t : Task}, s.tasks[k]? = some t → ∃ op, ops[k]? = some op ∧ op.task.Stays t
  lending : Lending s.registry

variable {ops : List Operation} {s : RegistryRun} {e : RegistryEvent} {t : Task}

theorem budgeted_begin (ops : List Operation) : Budgeted ops (begin ops) where
  consistent := consistent_begin ops
  tasks := by
    intro k t ht
    simp only [begin, List.getElem?_toArray, List.getElem?_map, Option.map_eq_some_iff] at ht
    obtain ⟨op, hop, rfl⟩ := ht
    exact ⟨op, hop, .refl _⟩
  lending := ⟨fun h => (by cases h), fun h => (by cases h), fun h => by simp [begin] at h⟩

theorem Budgeted.lends (h : Budgeted ops s) (ht : s.tasks[e.task]? = some t) :
    t.Lends e.now s.registry (t.advance s.registry (s.isFree e.task) e.now e.watch) := by
  obtain ⟨op, -, hstays⟩ := h.tasks ht
  exact Task.lends_advance h.consistent.sound (h.consistent.agrees ht) (hstays.isProper op.isProper_task) _ _ _

/-- The next step is one of a task, or none. -/
theorem Budgeted.step_cases (h : Budgeted ops s) (e : RegistryEvent) :
    s.step e = s ∨ ∃ t, s.tasks[e.task]? = some t ∧ t.LimiterStep e.now s.registry (s.step e).registry := by
  cases ht : s.tasks[e.task]? with
  | none =>
    unfold step
    rw [ht]
    exact .inl rfl
  | some t =>
    rw [registry_step ht]
    exact .inr ⟨t, rfl, (h.lends ht).step⟩

/-- A task after a step is the one that went on, or was there before. -/
theorem getElem?_tasks_step {k : Nat} {t : Task} (h : (s.step e).tasks[k]? = some t) :
    (∃ t₁, s.tasks[e.task]? = some t₁ ∧ k = e.task ∧
      t = (t₁.advance s.registry (s.isFree e.task) e.now e.watch).2) ∨ s.tasks[k]? = some t := by
  unfold step at h
  split at h
  · exact .inr h
  · rename_i t₁ ht₁
    dsimp only at h
    rw [Array.getElem?_setIfInBounds] at h
    split at h
    · rename_i hk
      split at h
      · exact .inl ⟨t₁, ht₁, hk.symm, (Option.some.inj h).symm⟩
      · cases h
    · exact .inr h

/-- A rate that an operation sets is on the grid if all of them are. -/
theorem Budgeted.onGrid_rate (h : Budgeted ops s) (hrates : RatesOnGrid ops) {k : Nat} (ht : s.tasks[k]? = some t)
    {target : WatchTarget} {rate : Binary64} (hgoal : t.goal = .ensure target rate) {q : Rat}
    (hrate : Bucket.rate? rate = .ok q) : nearest q = q := by
  obtain ⟨op, hop, hstays⟩ := h.tasks ht
  obtain ⟨uid, rfl⟩ := Operation.eq_ensure_of_goal (hstays.goal.symm.trans hgoal)
  exact hrates uid target rate (List.mem_of_getElem? hop) q (Bucket.eq_finite_of_rate? hrate).1

theorem Budgeted.step (h : Budgeted ops s) (hrates : RatesOnGrid ops) (e : RegistryEvent) :
    Budgeted ops (s.step e) where
  consistent := h.consistent.step fun _ _ => trivial
  tasks := by
    intro k t ht
    rcases getElem?_tasks_step ht with ⟨t₁, ht₁, rfl, rfl⟩ | ht
    · obtain ⟨op, hop, hstays⟩ := h.tasks ht₁
      exact ⟨op, hop, hstays.advance (h.consistent.agrees ht₁) _ _ _⟩
    · exact h.tasks ht
  lending := by
    obtain heq | ⟨t, ht, hstep⟩ := h.step_cases e
    · rw [heq]
      exact h.lending
    · exact h.lending.limiterStep hstep fun hgoal hrate => h.onGrid_rate hrates ht hgoal hrate

/-- Asking for tokens changes no slot and no watch. -/
theorem sameWatches_request (s : RegistryRun) (limiter : Nat) (now : Duration) :
    Registry.SameWatches s.registry (s.request limiter now).registry :=
  ⟨rfl, rfl, fun _ => rfl, fun _ => rfl, rfl⟩

theorem Consistent.request {P : Bool → Prop} (h : Consistent P s) (limiter : Nat) (now : Duration) :
    Consistent P (s.request limiter now) where
  sound := h.sound.sameWatches (sameWatches_request s limiter now)
  agrees := by
    intro k t ht
    -- the step counts as one on any slot that the task is not at work on
    have hspares := (sameWatches_request s limiter now).spares (t.holds?.elim 0 Nat.succ)
    refine (h.agrees ht).spares hspares ?_
    cases t.holds? <;> simp
  exclusive := h.exclusive

/-- Whatever happens to a registry, it and the tasks on it agree. -/
theorem Consistent.uses (h : Consistent (fun _ => True) s) (us : List RegistryUse) :
    Consistent (fun _ => True) (s.uses us) := by
  induction us generalizing s with
  | nil => exact h
  | cons u us ih =>
    refine ih ?_
    cases u with
    | goOn e => exact h.step fun _ _ => trivial
    | request limiter now => exact h.request limiter now

theorem Budgeted.request (h : Budgeted ops s) (limiter : Nat) (now : Duration) :
    Budgeted ops (s.request limiter now) where
  consistent := h.consistent.request limiter now
  tasks := h.tasks
  lending := h.lending.modify (fun _ => rfl) rfl fun hb => hb.request now

theorem Budgeted.use (h : Budgeted ops s) (hrates : RatesOnGrid ops) (u : RegistryUse) : Budgeted ops (s.use u) := by
  cases u with
  | goOn e => exact h.step hrates e
  | request limiter now => exact h.request limiter now

theorem Budgeted.uses (h : Budgeted ops s) (hrates : RatesOnGrid ops) (us : List RegistryUse) :
    Budgeted ops (s.uses us) := by
  induction us generalizing s with
  | nil => exact h
  | cons u us ih => exact ih (h.use hrates u)

/-! ## §3 Budgets -/

variable {uid : String}

/-- The next step is one of a task that has a watch for the policy. -/
def Ensures (s : RegistryRun) (e : RegistryEvent) (uid : String) (target : WatchTarget) (rate : Binary64) : Prop :=
  ∃ t, s.tasks[e.task]? = some t ∧ t.goal = .ensure target rate ∧ t.uids = [uid]

/-- The next step is one of a task that is at removing the policy. -/
def Removes (s : RegistryRun) (e : RegistryEvent) (uid : String) : Prop :=
  ∃ t rest, s.tasks[e.task]? = some t ∧ t.goal = .remove ∧ t.uids = uid :: rest

theorem Budgeted.ensures (h : Budgeted ops s) (ht : s.tasks[e.task]? = some t) {rest : List String}
    (huids : t.uids = uid :: rest) {target : WatchTarget} {rate : Binary64} (hgoal : t.goal = .ensure target rate) :
    s.Ensures e uid target rate := by
  obtain ⟨op, -, hstays⟩ := h.tasks ht
  obtain ⟨k, rfl⟩ := Operation.eq_ensure_of_goal (hstays.goal.symm.trans hgoal)
  have hserves := (hstays.serves (Operation.serves_ensure k target rate)).uids
  obtain ⟨rfl, -⟩ : uid = k ∧ rest = [] := by simpa [hserves] using huids.symm
  exact ⟨t, ht, hgoal, hserves⟩

/-- Only a removal takes the limiter of a policy away. -/
theorem Budgeted.limiter?_step (h : Budgeted ops s) {l : Nat} (hl : s.registry.limiter? uid = some l) :
    (s.step e).registry.limiter? uid = some l ∨ (s.step e).registry.limiter? uid = none ∧ s.Removes e uid := by
  obtain heq | ⟨t, ht, hstep⟩ := h.step_cases e
  · rw [heq]
    exact .inl hl
  cases hstep with
  | spared hheld => exact .inl ((hheld uid).trans hl)
  | rated _ _ _ _ hheld => exact .inl ((hheld uid).trans hl)
  | given _ _ _ hnone hheld =>
    refine .inl ?_
    rw [hheld, if_neg]
    · exact hl
    · rintro rfl
      rw [hnone] at hl
      cases hl
  | @taken k rest huids hgoal hheld =>
    rw [hheld]
    split
    · subst uid
      exact .inr ⟨rfl, t, rest, ht, hgoal, huids⟩
    · exact .inl hl

/-- A policy that gets a limiter had none, and the new limiter is full. -/
theorem Budgeted.full_of_limiter?_step (h : Budgeted ops s) {l : Nat} (hl : s.registry.limiter? uid ≠ some l)
    (hnew : (s.step e).registry.limiter? uid = some l) :
    s.registry.limiter? uid = none ∧ ∃ target rate q, s.Ensures e uid target rate ∧ Bucket.rate? rate = .ok q ∧
      (s.step e).registry.limiters[l]? = some (.full q e.now) := by
  obtain heq | ⟨t, ht, hstep⟩ := h.step_cases e
  · rw [heq] at hnew
    exact absurd hnew hl
  cases hstep with
  | spared hheld => exact absurd ((hheld uid).symm.trans hnew) hl
  | rated _ _ _ _ hheld => exact absurd ((hheld uid).symm.trans hnew) hl
  | @given k _ target rate q huids hgoal hrate hnone hheld hlimiters =>
    rw [hheld] at hnew
    split at hnew
    · subst k
      cases hnew
      refine ⟨hnone, target, rate, q, h.ensures ht huids hgoal, hrate, ?_⟩
      rw [hlimiters, Array.getElem?_push, if_pos rfl]
    · exact absurd hnew hl
  | taken _ _ hheld =>
    rw [hheld] at hnew
    split at hnew
    · cases hnew
    · exact absurd hnew hl

/-- No step raises what a limiter holds. Only the one of a policy that has a watch is touched, and what it holds is then
cut to the new capacity. -/
theorem Budgeted.count_step (h : Budgeted ops s) (hrates : RatesOnGrid ops) {l : Nat} {b : Bucket}
    (hb : s.registry.limiters[l]? = some b) :
    ∃ b', (s.step e).registry.limiters[l]? = some b' ∧ (b' = b ∨ ∃ uid target rate q, s.Ensures e uid target rate ∧
      Bucket.rate? rate = .ok q ∧ s.registry.limiter? uid = some l ∧
        b'.count e.now = min (b.count e.now) (Bucket.capacityOf q)) := by
  obtain heq | ⟨t, ht, hstep⟩ := h.step_cases e
  · rw [heq]
    exact ⟨b, hb, .inl rfl⟩
  cases hstep with
  | spared _ hlimiters => exact ⟨b, hlimiters ▸ hb, .inl rfl⟩
  | @rated uid _ target rate q l' huids hgoal hrate hl' _ hlimiters =>
    rw [hlimiters, Array.getElem?_modify, hb]
    split
    · subst l'
      refine ⟨_, rfl, .inr ⟨uid, target, rate, q, h.ensures ht huids hgoal, hrate, hl', ?_⟩⟩
      exact (h.lending.onGrid hb).count_setRate (h.onGrid_rate hrates ht hgoal hrate) e.now
    · exact ⟨b, rfl, .inl rfl⟩
  | given _ _ _ _ _ hlimiters =>
    obtain ⟨hlt, -⟩ := Array.getElem?_eq_some_iff.mp hb
    rw [hlimiters, Array.getElem?_push, if_neg (Nat.ne_of_lt hlt)]
    exact ⟨b, hb, .inl rfl⟩
  | taken _ _ _ hlimiters => exact ⟨b, hlimiters ▸ hb, .inl rfl⟩

theorem Budgeted.limiter?_use (h : Budgeted ops s) (hremoves : ∀ op ∈ ops, ¬ op.Removes uid) {l : Nat}
    (hl : s.registry.limiter? uid = some l) (u : RegistryUse) : (s.use u).registry.limiter? uid = some l := by
  cases u with
  | request limiter now => exact hl
  | goOn e =>
    rcases h.limiter?_step hl with hl' | ⟨-, t, rest, ht, hgoal, huids⟩
    · exact hl'
    · obtain ⟨op, hop, hstays⟩ := h.tasks ht
      have hoff := hstays.keepsOff (Operation.keepsOff_task (hremoves op (List.mem_of_getElem? hop)))
      exact absurd (huids ▸ List.mem_cons_self) (hoff.uids hgoal)

/-- A policy that nobody removes keeps its limiter. -/
theorem Budgeted.limiter?_uses (h : Budgeted ops s) (hrates : RatesOnGrid ops)
    (hremoves : ∀ op ∈ ops, ¬ op.Removes uid) {l : Nat} (hl : s.registry.limiter? uid = some l)
    (us : List RegistryUse) : (s.uses us).registry.limiter? uid = some l := by
  induction us generalizing s with
  | nil => exact hl
  | cons u us ih => exact ih (h.use hrates u) (h.limiter?_use hremoves hl u)

/-- Where an operation has had a watch for the policy, the policy has a limiter. -/
def HasLimiters (ops : List Operation) (uid : String) (s : RegistryRun) : Prop :=
  ∀ (k : Nat) (t : Task) (target : WatchTarget) (rate : Binary64) (outcome : EnsureOutcome),
    ops[k]? = some (.ensure uid target rate) → s.tasks[k]? = some t → t.result? = some (.ensured (.ok outcome)) →
      ∃ l, s.registry.limiter? uid = some l

theorem hasLimiters_begin (ops : List Operation) (uid : String) : HasLimiters ops uid (begin ops) := by
  intro k t target rate outcome hop ht hresult
  simp only [begin, List.getElem?_toArray, List.getElem?_map, hop] at ht
  cases ht
  cases hresult

theorem Budgeted.hasLimiters_step (h : Budgeted ops s) (hremoves : ∀ op ∈ ops, ¬ op.Removes uid)
    (hlimiters : HasLimiters ops uid s) (e : RegistryEvent) : HasLimiters ops uid (s.step e) := by
  intro k t target rate outcome hop ht hresult
  have hkept (hl : ∃ l, s.registry.limiter? uid = some l) : ∃ l, (s.step e).registry.limiter? uid = some l := by
    obtain ⟨l, hl⟩ := hl
    exact ⟨l, h.limiter?_use hremoves hl (.goOn e)⟩
  rcases getElem?_tasks_step ht with ⟨t₁, ht₁, rfl, rfl⟩ | ht
  · cases hdone : t₁.result? with
    | some result =>
      -- a task that has ended stays as it is
      have hsame : (t₁.advance s.registry (s.isFree e.task) e.now e.watch).2 = t₁ := by
        unfold Task.result? at hdone
        split at hdone
        · rename_i hpoint
          simp [Task.advance, hpoint]
        · cases hdone
      rw [hsame] at hresult
      exact hkept (hlimiters e.task t₁ target rate outcome hop ht₁ hresult)
    | none =>
      obtain ⟨uid', rest, huids, hsome⟩ := (h.lends ht₁).done hdone outcome hresult
      obtain ⟨op, hop', hstays⟩ := h.tasks ht₁
      obtain rfl : op = .ensure uid target rate := Option.some.inj (hop'.symm.trans hop)
      have hserves := (hstays.serves (Operation.serves_ensure uid target rate)).uids
      obtain ⟨rfl, -⟩ : uid' = uid ∧ rest = [] := by simpa [hserves] using huids.symm
      rw [← registry_step ht₁] at hsome
      exact Option.isSome_iff_exists.mp hsome
  · exact hkept (hlimiters k t target rate outcome hop ht hresult)

theorem Budgeted.hasLimiters_uses (h : Budgeted ops s) (hrates : RatesOnGrid ops)
    (hremoves : ∀ op ∈ ops, ¬ op.Removes uid) (hlimiters : HasLimiters ops uid s) (us : List RegistryUse) :
    HasLimiters ops uid (s.uses us) := by
  induction us generalizing s with
  | nil => exact hlimiters
  | cons u us ih =>
    refine ih (h.use hrates u) ?_
    cases u with
    | goOn e => exact h.hasLimiters_step hremoves hlimiters e
    | request limiter now => exact hlimiters

/-- Operations side by side, between whose steps any limiter may be asked for tokens. A policy that none of them removes
has one limiter, and no other policy has that, from the first time on that it had a watch. No step raises what a limiter
holds: it stays as it is, unless its policy has a watch at some rate, and then what it has gained by now is cut to the
capacity for this rate. Only a policy without a limiter gets a full one, and only a removal leaves it without. -/
theorem budget_survives (ops : List Operation) (hrates : RatesOnGrid ops) (us : List RegistryUse) :
    let s := (begin ops).uses us
    (∀ uid, (∀ op ∈ ops, ¬ op.Removes uid) →
      HasLimiters ops uid s ∧ ∀ l, s.registry.limiter? uid = some l → ∀ more,
        (s.uses more).registry.limiter? uid = some l ∧
          ∀ hs, (s.uses more).registry.handles? uid = some hs → hs.limiter = l) ∧
    (∀ uid uid' l, s.registry.limiter? uid = some l → s.registry.limiter? uid' = some l → uid = uid') ∧
    (∀ (e : RegistryEvent) (l : Nat) (b : Bucket), s.registry.limiters[l]? = some b →
      ∃ b', (s.step e).registry.limiters[l]? = some b' ∧ (b' = b ∨ ∃ uid target rate q, s.Ensures e uid target rate ∧
        Bucket.rate? rate = .ok q ∧ s.registry.limiter? uid = some l ∧
          b'.count e.now = min (b.count e.now) (Bucket.capacityOf q))) ∧
    (∀ (e : RegistryEvent) uid l, s.registry.limiter? uid ≠ some l → (s.step e).registry.limiter? uid = some l →
      s.registry.limiter? uid = none ∧ ∃ target rate q, s.Ensures e uid target rate ∧ Bucket.rate? rate = .ok q ∧
        (s.step e).registry.limiters[l]? = some (.full q e.now)) ∧
    (∀ (e : RegistryEvent) uid l, s.registry.limiter? uid = some l → (s.step e).registry.limiter? uid ≠ some l →
      (s.step e).registry.limiter? uid = none ∧ s.Removes e uid) := by
  intro s
  have h : Budgeted ops s := (budgeted_begin ops).uses hrates us
  refine ⟨fun uid hremoves =>
      ⟨(budgeted_begin ops).hasLimiters_uses hrates hremoves (hasLimiters_begin ops uid) us, ?_⟩,
    fun _ _ _ => h.lending.injective, fun _ _ _ => h.count_step hrates, fun _ _ _ => h.full_of_limiter?_step,
    fun _ _ _ hl hne => (h.limiter?_step hl).resolve_left hne⟩
  intro l hl more
  have hkept := h.limiter?_uses hrates hremoves hl more
  refine ⟨hkept, fun hs hhandles => ?_⟩
  exact Option.some.inj ((Registry.limiter?_of_handles? hhandles).symm.trans hkept)

/-- A policy is served, paused, and served again with another target at a lower rate. -/
def editOps : List Operation :=
  [.ensure "p" default (.ofInt 5), .setState "p" .paused,
    .ensure "p" { (default : WatchTarget) with kind := "Pod" } (.ofInt 2)]

/-- The policy gets its first watch, and four deletions begin. -/
def spendUses : List RegistryUse :=
  List.replicate 3 (.goOn { task := 0, now := ⟨0⟩, watch := .ok false }) ++ List.replicate 4 (.request 0 ⟨0⟩)

/-- The policy is paused, and its watch replaced. -/
def editUses : List RegistryUse :=
  [1, 1, 2, 2, 2, 2].map fun task => .goOn { task, now := ⟨0⟩, watch := .ok false }

/-- Of the five deletions of the first second one is left, before and after the policy was edited. -/
theorem budget_survives_edits :
    let s := (begin editOps).uses spendUses
    s.registry.limiter? "p" = some 0 ∧ (∀ more, (s.uses more).registry.limiter? "p" = some 0) ∧
      (s.registry.limiters[0]?.map (·.count ⟨0⟩)) = some 1 ∧
      ((s.uses editUses).registry.limiters[0]?.map fun b => (b.rate, b.count ⟨0⟩)) = some (2, 1) := by
  have hrates : RatesOnGrid editOps := by
    intro uid target rate hop
    simp only [editOps, List.mem_cons, Operation.ensure.injEq, reduceCtorEq, List.not_mem_nil, or_false,
      false_or] at hop
    rcases hop with ⟨-, -, rfl⟩ | ⟨-, -, rfl⟩ <;> exact Binary64.onGrid_ofRat _
  have hremoves : ∀ op ∈ editOps, ¬ op.Removes "p" := by
    intro op hop
    simp only [editOps, List.mem_cons, List.not_mem_nil, or_false] at hop
    rcases hop with rfl | rfl | rfl <;> simp [Operation.Removes]
  obtain ⟨hkept, -⟩ := budget_survives editOps hrates spendUses
  have hfirst : ((begin editOps).uses spendUses).registry.limiter? "p" = some 0 := by decide +kernel
  exact ⟨hfirst, fun more => ((hkept "p" hremoves).2 0 hfirst more).1, by decide +kernel, by decide +kernel⟩

end RegistryRun

end Reaper
