import Reaper.Proofs.Registry.Holdings
import Reaper.Proofs.Registry.Index

/-!
What a step of a task does to the limiters.

Whatever a task does, it does one of four things to the limiters (`LimiterStep`): nothing, or it brings the limiter of
its policy to a rate, gives its policy a new limiter, or takes the limiter away. Only a task that has a watch for a
policy does the second and the third, and only a removal the last.

  §1 Limiters — the limiter that is held for a policy, and what the parts of an operation leave of it.
  §2 Steps    — what a task leaves when it goes on (`lends_advance`).
-/

namespace Reaper

namespace Registry

variable {P : Bool → Prop} {r r' : Registry} {uid : String} {i : Nat}

/-! ## §1 Limiters -/

/-- The limiter that is held for the policy. -/
def limiter? (r : Registry) (uid : String) : Option Nat := (r.slot? uid).bind fun i => (r.slotAt i).limiter

theorem limiter?_of_slot? (h : r.slot? uid = some i) : r.limiter? uid = (r.slotAt i).limiter := by
  simp [limiter?, h]

/-- The limiter that a pass is given. -/
theorem limiter?_of_handles? {hs : Handles} (h : r.handles? uid = some hs) : r.limiter? uid = some hs.limiter := by
  obtain ⟨i, hslot, hat⟩ := Option.bind_eq_some_iff.mp h
  simp only [handlesAt, Option.bind_eq_bind, Option.bind_eq_some_iff, Option.some.injEq] at hat
  obtain ⟨w, -, l, hl, watch, -, rfl⟩ := hat
  exact (limiter?_of_slot? hslot).trans hl

/-- The same slots with the same limiters. -/
theorem limiter?_congr (hslot : ∀ k, r'.slot? k = r.slot? k)
    (hlimiter : ∀ j, (r'.slotAt j).limiter = (r.slotAt j).limiter) (k : String) : r'.limiter? k = r.limiter? k := by
  unfold limiter?
  rw [hslot]
  cases r.slot? k with
  | none => rfl
  | some j => exact hlimiter j

/-- Making a slot gives nobody a limiter. -/
@[simp] theorem limiter?_slotFor (r : Registry) (uid k : String) : (r.slotFor uid).2.limiter? k = r.limiter? k := by
  unfold limiter?
  rw [slot?_slotFor]
  split
  · subst k
    obtain ⟨i, hi, heq⟩ | ⟨hnone, hfst, -⟩ := r.slotFor_cases uid
    · simp [heq, hi]
    · simp [hfst, hnone, r.slotAt_of_size_le (Nat.le_refl _)]
  · simp

@[simp] theorem limiter?_stopWatch (r : Registry) (i : Nat) (k : String) :
    (r.stopWatch i).limiter? k = r.limiter? k := by
  refine limiter?_congr (slot?_stopWatch r i) (fun j => ?_) k
  rw [slotAt_stopWatch]
  split <;> rfl

@[simp] theorem limiter?_addWatch (r : Registry) (i : Nat) (owner : String) (target : WatchTarget) (cancelled : Bool)
    (k : String) : (r.addWatch i owner target cancelled).limiter? k = r.limiter? k := by
  have hslot (k : String) : (r.addWatch i owner target cancelled).slot? k = r.slot? k := rfl
  refine limiter?_congr hslot (fun j => ?_) k
  rw [slotAt_addWatch]
  split <;> rfl

theorem limiter?_setState (r : Registry) (i : Nat) (s : PolicyState) (k : String) :
    (r.modifySlot i ({ · with state := s })).limiter? k = r.limiter? k := by
  refine limiter?_congr (slot?_modifySlot r i _) (fun j => ?_) k
  rw [slotAt_modifySlot]
  split <;> rfl

/-- What is changed in the slot of a policy is changed for this policy alone. -/
theorem limiter?_of_slot (h : Sound P r) (hslot : r.slot? uid = some i) (hindex : ∀ k, k ≠ uid → r'.slot? k = r.slot? k)
    (hlimiter : ∀ j, i ≠ j → (r'.slotAt j).limiter = (r.slotAt j).limiter) {k : String} (hk : k ≠ uid) :
    r'.limiter? k = r.limiter? k := by
  unfold limiter?
  rw [hindex k hk]
  cases hj : r.slot? k with
  | none => rfl
  | some j =>
    refine hlimiter j ?_
    rintro rfl
    exact hk (h.injective hj hslot)

/-- Giving the slot of a policy up takes its limiter away. -/
theorem limiter?_retire (h : Sound P r) (hslot : r.slot? uid = some i) (k : String) :
    (r.retire uid i).limiter? k = if k = uid then none else r.limiter? k := by
  split
  · subst k
    simp [limiter?, slot?_retire r hslot]
  · rename_i hk
    refine limiter?_of_slot h hslot (fun k hk => ?_) (fun j hij => ?_) hk
    · rw [slot?_retire r hslot, if_neg hk]
    · rw [slotAt_retire, if_neg fun heq => hij heq.1]

theorem limiter?_addLimiter (h : Sound P r) (hslot : r.slot? uid = some i) (b : Bucket) (k : String) :
    (r.addLimiter i b).limiter? k = if k = uid then some r.limiters.size else r.limiter? k := by
  have hindex (k : String) : (r.addLimiter i b).slot? k = r.slot? k := rfl
  split
  · subst k
    rw [limiter?_of_slot? ((hindex uid).trans hslot), slotAt_addLimiter, if_pos ⟨rfl, h.lt_size hslot⟩]
  · rename_i hk
    refine limiter?_of_slot h hslot (fun k _ => hindex k) (fun j hij => ?_) hk
    rw [slotAt_addLimiter, if_neg fun heq => hij heq.1]

end Registry

namespace Task

open Registry (Sound)

variable {P : Bool → Prop} {r r' : Registry} {t : Task} {uid : String} {rest : List String} {i : Nat} {now : Duration}

/-! ## §2 Steps -/

@[simp] theorem goal_finish (t : Task) (result : TaskResult) : (t.finish result).goal = t.goal := rfl

@[simp] theorem goal_next (t : Task) (held : Bool) : (t.next held).goal = t.goal := by
  unfold next
  split <;> rfl

/-- A task keeps its goal. -/
theorem goal_advance (r : Registry) (t : Task) (free : Nat → Bool) (now : Duration) (watch : Except WatchError Bool) :
    (t.advance r free now watch).2.goal = t.goal := by
  unfold advance work stopped opened missing
  repeat' split
  all_goals simp

/-- The task is an operation of the registry: it serves a policy or removes policies. -/
def IsProper (t : Task) : Prop := (∃ uid, t.Serves uid) ∨ t.goal = .remove

/-- What a step of a task does to the limiters. -/
inductive LimiterStep (t : Task) (now : Duration) (r r' : Registry) : Prop
  /-- everybody has the limiter that they had, as it was -/
  | spared (hheld : ∀ k, r'.limiter? k = r.limiter? k) (hlimiters : r'.limiters = r.limiters)
  /-- the limiter of the policy is brought to a rate -/
  | rated {uid : String} {rest : List String} {target : WatchTarget} {rate : Binary64} {q : Rat} {l : Nat}
    (huids : t.uids = uid :: rest) (hgoal : t.goal = .ensure target rate) (hrate : Bucket.rate? rate = .ok q)
    (hl : r.limiter? uid = some l) (hheld : ∀ k, r'.limiter? k = r.limiter? k)
    (hlimiters : r'.limiters = r.limiters.modify l (Bucket.setRate Rounding.nearest now q))
  /-- the policy, which has none, gets a new limiter -/
  | given {uid : String} {rest : List String} {target : WatchTarget} {rate : Binary64} {q : Rat}
    (huids : t.uids = uid :: rest) (hgoal : t.goal = .ensure target rate) (hrate : Bucket.rate? rate = .ok q)
    (hnone : r.limiter? uid = none)
    (hheld : ∀ k, r'.limiter? k = if k = uid then some r.limiters.size else r.limiter? k)
    (hlimiters : r'.limiters = r.limiters.push (.full q now))
  /-- the policy has a limiter no more -/
  | taken {uid : String} {rest : List String} (huids : t.uids = uid :: rest) (hgoal : t.goal = .remove)
    (hheld : ∀ k, r'.limiter? k = if k = uid then none else r.limiter? k) (hlimiters : r'.limiters = r.limiters)

/-- A step after one that spares the limiters. -/
theorem LimiterStep.after {r₁ : Registry} (h : t.LimiterStep now r₁ r') (hheld : ∀ k, r₁.limiter? k = r.limiter? k)
    (hlimiters : r₁.limiters = r.limiters) : t.LimiterStep now r r' := by
  cases h with
  | spared hheld' hlimiters' => exact .spared (fun k => (hheld' k).trans (hheld k)) (hlimiters'.trans hlimiters)
  | rated huids hgoal hrate hl hheld' hlimiters' =>
    exact .rated huids hgoal hrate ((hheld _).symm.trans hl) (fun k => (hheld' k).trans (hheld k))
      (hlimiters ▸ hlimiters')
  | given huids hgoal hrate hnone hheld' hlimiters' =>
    refine .given huids hgoal hrate ((hheld _).symm.trans hnone) (fun k => ?_) (hlimiters ▸ hlimiters')
    rw [hheld', hheld, hlimiters]
  | taken huids hgoal hheld' hlimiters' =>
    refine .taken huids hgoal (fun k => ?_) (hlimiters'.trans hlimiters)
    rw [hheld', hheld]

/-- What a step of a task leaves of the limiters; when it has had a watch, its policy has one. -/
structure Lends (now : Duration) (r : Registry) (t : Task) (left : Registry × Task) : Prop where
  step : t.LimiterStep now r left.1
  done : t.result? = none → ∀ outcome, left.2.result? = some (.ensured (.ok outcome)) →
    ∃ uid rest, t.uids = uid :: rest ∧ (left.1.limiter? uid).isSome = true

/-- A step in which the limiters are spared, and no watch was had. -/
theorem Lends.spared {t' : Task} (hheld : ∀ k, r'.limiter? k = r.limiter? k) (hlimiters : r'.limiters = r.limiters)
    (hresult : ∀ outcome, t'.result? ≠ some (.ensured (.ok outcome))) : Lends now r t (r', t') where
  step := .spared hheld hlimiters
  done _ outcome h := absurd h (hresult outcome)

/-- A step that gives the slot of the first policy up. -/
theorem Lends.retire (h : Sound P r) (hgoal : t.goal = .remove) (huids : t.uids = uid :: rest)
    (hslot : r.slot? uid = some i) (held : Bool) : Lends now r t (r.retire uid i, t.next held) where
  step := .taken huids hgoal (Registry.limiter?_retire h hslot) (Registry.limiters_retire ..)
  done _ outcome hdone := by
    unfold next at hdone
    rw [huids] at hdone
    cases hdone

/-- The last part of having a watch: where it is successful, the policy has a limiter. -/
theorem Lends.finishEnsure {r₁ : Registry} (h : Sound P r₁) (hslot : r₁.slot? uid = some i) {target : WatchTarget}
    {rate : Binary64} (hgoal : t.goal = .ensure target rate) (huids : t.uids = uid :: rest)
    (hheld : ∀ k, r₁.limiter? k = r.limiter? k) (hlimiters : r₁.limiters = r.limiters) (outcome : EnsureOutcome) :
    Lends now r t ((r₁.finishEnsure i rate now outcome).2,
      t.finish (.ensured (r₁.finishEnsure i rate now outcome).1)) := by
  unfold Registry.finishEnsure Registry.setRate
  cases hrate : Bucket.rate? rate with
  | error e => exact .spared hheld hlimiters fun _ ho => by cases ho
  | ok q =>
    have hat := Registry.limiter?_of_slot? hslot
    cases hl : (r₁.slotAt i).limiter with
    | none =>
      have hadded := Registry.limiter?_addLimiter h hslot (.full q now)
      refine ⟨.after (.given huids hgoal hrate (hat.trans hl) hadded rfl) hheld hlimiters, fun _ _ _ => ?_⟩
      have hnew := hadded uid
      rw [if_pos rfl] at hnew
      exact ⟨uid, rest, huids, congrArg Option.isSome hnew⟩
    | some l =>
      have hold : r₁.limiter? uid = some l := hat.trans hl
      refine ⟨.after (.rated huids hgoal hrate hold (fun _ => rfl) rfl) hheld hlimiters, fun _ _ _ => ?_⟩
      exact ⟨uid, rest, huids, congrArg Option.isSome hold⟩

theorem lends_work (h : Sound P r) (huids : t.uids = uid :: rest) (hslot : r.slot? uid = some i) (now : Duration) :
    Lends now r t (t.work r uid i now) := by
  unfold work
  split
  · rename_i target rate hgoal
    split
    · exact .finishEnsure h hslot hgoal huids (fun _ => rfl) rfl .reused
    · exact .spared (Registry.limiter?_stopWatch r i) (Registry.limiters_stopWatch r i) fun _ h => by cases h
    · exact .spared (fun _ => rfl) rfl fun _ h => by cases h
  · rename_i hgoal
    dsimp only
    split
    · exact .spared (Registry.limiter?_stopWatch r i) (Registry.limiters_stopWatch r i) fun _ h => by cases h
    · exact .retire h hgoal huids hslot _
  · exact .spared (Registry.limiter?_setState r i _) rfl fun _ h => by cases h
  · exact .spared (fun _ => rfl) rfl fun _ h => by cases h

theorem lends_opened (h : Sound (fun _ => True) r) (huids : t.uids = uid :: rest) (hslot : r.slot? uid = some i)
    (hnone : (r.slotAt i).watch = none) (hunfinished : ∀ result, t.point ≠ .finished result) (outcome : EnsureOutcome)
    (now : Duration) (watch : Except WatchError Bool) : Lends now r t (t.opened r uid i outcome now watch) := by
  unfold opened
  split
  · rename_i target rate hgoal
    split
    · exact .spared (fun _ => rfl) rfl fun _ h => by cases h
    · rename_i cancelled
      exact .finishEnsure (h.addWatch hslot hnone target trivial) hslot hgoal huids
        (Registry.limiter?_addWatch r i uid target cancelled) rfl outcome
  · refine .spared (fun _ => rfl) rfl fun o h => ?_
    unfold result? at h
    split at h
    · exact absurd ‹_› (hunfinished _)
    · cases h

/-- A task that finds no slot for its policy has had no watch. -/
theorem result?_missing (t : Task) (outcome : EnsureOutcome) :
    t.missing.result? ≠ some (.ensured (.ok outcome)) := by
  unfold missing next
  repeat' split
  all_goals simp [finish, result?]

/-- Letting a task go on. -/
theorem lends_advance (h : Sound (fun _ => True) r) (hagrees : t.Agrees r) (ht : t.IsProper) (free : Nat → Bool)
    (now : Duration) (watch : Except WatchError Bool) : Lends now r t (t.advance r free now watch) := by
  unfold advance
  split
  · rename_i hpoint
    refine ⟨.spared (fun _ => rfl) rfl, fun hnone => ?_⟩
    simp [result?, hpoint] at hnone
  · exact .spared (fun _ => rfl) rfl fun _ h => by cases h
  · exact .spared (fun _ => rfl) rfl fun _ h => by cases h
  · split
    · exact .spared (Registry.limiter?_slotFor r _) (Registry.limiters_slotFor r _) fun _ h => by cases h
    · split
      · exact .spared (fun _ => rfl) rfl fun _ h => by cases h
      · exact .spared (fun _ => rfl) rfl (result?_missing t)
  · rename_i i uid rest hpoint huids
    split
    · refine .spared (fun _ => rfl) rfl fun _ h => ?_
      simp [result?, hpoint] at h
    · split
      · exact .spared (fun _ => rfl) rfl fun _ h => by cases h
      · rename_i hretired
        exact lends_work h huids ((hagrees.queued hpoint huids).2.resolve_left hretired) now
  · rename_i i held uid rest hpoint huids
    obtain ⟨uid', rest', huids', hslot, -⟩ := hagrees.working (i := i) (by simp [holds?, hpoint])
    cases huids.symm.trans huids'
    unfold stopped
    split
    · exact .spared (fun _ => rfl) rfl fun _ h => by cases h
    · rename_i hensure
      -- only a removal waits for a watch to stop besides
      have hgoal : t.goal = .remove := by
        rcases ht with ⟨k, hserves⟩ | hgoal
        · obtain ⟨target, rate, hgoal⟩ := hserves.stopping i held hpoint
          exact absurd hgoal (hensure target rate)
        · exact hgoal
      exact .retire h hgoal huids hslot held
  · rename_i i outcome uid rest hpoint huids
    obtain ⟨uid', rest', huids', hslot, hnone⟩ := hagrees.working (i := i) (by simp [holds?, hpoint])
    cases huids.symm.trans huids'
    exact lends_opened h huids hslot hnone (by simp [hpoint]) outcome now watch

end Task

end Reaper
