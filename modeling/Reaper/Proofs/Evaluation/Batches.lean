import Reaper.Proofs.Evaluation.Calls
import Reaper.Proofs.Pass.Slots

/-!
The batch of an evaluation.

A pass makes no more calls at once than its policy's batch allows. Slots do not get lost and nobody holds one in its
sleep, so that a deletion that keeps failing is in nobody's way: where only time and replies are waited for, somebody
waits for a slot only while a whole batch of calls is under way (`batches_are_kept`).
-/

namespace Reaper

namespace Pass

/-- The slots of a pass are in order: each is free or held for a call, and each deletion has given back what it took
and does not hold. -/
structure KeepsSlots (slots : Nat) (returned : Nat → Nat) (p : Pass) : Prop where
  inFlight_le : p.inFlight ≤ slots
  accounted : p.free + p.stages.countP Stage.holdsSlot = slots
  books : ∀ i, p.slotsTaken i = returned i + p.slotsHeld i
  /-- who waits for a token or between two calls has given back all it took -/
  asleep : ∀ i s, p.stages[i]? = some s → s.wake?.isSome → p.slotsHeld i = 0 ∧ p.slotsTaken i = returned i
  /-- and so has who has ended -/
  ended : ∀ i s, p.stages[i]? = some s → s.disposition?.isSome → p.slotsHeld i = 0 ∧ p.slotsTaken i = returned i
  allBack : p.isSettled → p.free = slots

/-- Along every run of a pass the slots are in order. -/
theorem keepsSlots_run (plan : PassPlan) (bucket : Bucket) (now : Duration) (events : List PassEvent) :
    KeepsSlots plan.slots (fun i => slotsReturned plan i (start plan bucket now) events)
      ((start plan bucket now).run plan events) := by
  have hagree := slotsAgree_run plan bucket now events
  have hbooks (i : Nat) := slotsTaken_run_start plan bucket now events i
  have hclosed {i : Nat} {s : Stage} (hs : ((start plan bucket now).run plan events).stages[i]? = some s)
      (hholds : s.holdsSlot = false) :
      ((start plan bucket now).run plan events).slotsHeld i = 0 ∧
        ((start plan bucket now).run plan events).slotsTaken i =
          slotsReturned plan i (start plan bucket now) events := by
    have hnone := slotsHeld_of_not_holdsSlot hs hholds
    exact ⟨hnone, by rw [hbooks i, hnone, Nat.add_zero]⟩
  exact
    { inFlight_le := hagree.inFlight_le
      accounted := hagree.slots
      books := hbooks
      asleep := fun i s hs hwake => hclosed hs (by cases s <;> first | rfl | cases hwake)
      ended := fun i s hs hended => hclosed hs (by cases s <;> first | rfl | cases hended)
      allBack := hagree.free_of_isSettled }

end Pass

namespace Evaluator

/-- A pass makes as many calls at once as the policy says, or the default where the policy says nothing positive, and
no more. Its slots are in order whatever happens, and nobody waits for one that is free. Where only time and replies are
waited for, nobody waits for a slot unless a whole batch of calls is under way. Evaluations are such passes. -/
theorem batches_are_kept (e : Evaluator) (p : Policy) (target : WatchTarget) (now : Instant) (snapshot : List Resource)
    (bucket : Bucket) (clock : Millis) :
    let plan := e.planFor p target now snapshot
    let begun := Pass.start plan bucket clock.moment
    let batch := e.batchSize p.spec.behavior
    (∀ n, p.spec.behavior.batchSize = some n → 0 < n → (batch : Int) = n) ∧
    ((∀ n, p.spec.behavior.batchSize = some n → n ≤ 0) → batch = max e.defaultBatchSize 1) ∧
    (∀ events,
      let reached := begun.run plan events
      reached.KeepsSlots batch (fun i => Pass.slotsReturned plan i begun events) ∧
      (∀ i n : Nat, reached.stages[i]? = some (.awaitingSlot n) → reached.free = 0) ∧
      ∀ i, reached.IsResting plan → reached.seeks i = true → reached.free = 0 ∧ reached.inFlight = batch) ∧
    ∀ (σ : Type) (backend : DeleteBackend σ) (cancelAt : Option Millis) (world : σ),
      (∀ s, Schedule.Reaches plan backend (.start plan bucket clock cancelAt world) s →
        (∃ events, s.pass = begun.run plan events) ∧ s.peak ≤ batch ∧
        ∀ i, s.ready = [] → s.pass.seeks i = true → s.pass.free = 0 ∧ s.pass.inFlight = batch) ∧
      ∀ v, e.evaluate backend p target now snapshot bucket clock cancelAt world = some v → v.peak ≤ batch := by
  intro plan begun batch
  refine ⟨?own, ?fallback, fun events => ⟨?_, ?waiting, ?resting⟩, fun σ backend cancelAt world => ⟨?schedules, ?_⟩⟩
  case own =>
    intro n hn hpos
    simp only [batch, batchSize, hn, if_pos hpos]
    exact Int.toNat_of_nonneg (Int.le_of_lt hpos)
  case fallback =>
    intro hnone
    simp only [batch, batchSize]
    split
    · rename_i n hn
      rw [if_neg (Int.not_lt.mpr (hnone n hn))]
    · rfl
  · exact Pass.keepsSlots_run plan bucket clock.moment events
  case waiting =>
    intro i n hi
    exact (Pass.slotsAgree_run plan bucket clock.moment events).free_of_awaitingSlot hi
  case resting =>
    intro i hresting hi
    exact (Pass.slotsAgree_run plan bucket clock.moment events).inFlight_of_seeks hresting.not_granted hi
  case schedules =>
    intro s hs
    exact ⟨Schedule.Reaches.events hs, Schedule.peak_le hs, fun i hready => Schedule.inFlight_of_waiting hs hready⟩
  · intro v hv
    unfold evaluate at hv
    split at hv
    · cases hv
      exact Nat.zero_le _
    · obtain ⟨s, hrun, rfl⟩ := Option.map_eq_some_iff.mp hv
      exact Schedule.peak_le (Schedule.reaches_of_runFor hrun)

end Evaluator

end Reaper
