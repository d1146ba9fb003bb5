import Reaper.Registry

/-!
What the steps of a registry do to its slots and watches.

  §1 Slots  — the slot with a number after each step.
  §2 Rates  — steps that change limiters and states only (`SameWatches`).
  §3 Ensure — the watch of a policy for which `ensure` was successful is on the target that was asked for
              (`target_of_ensure`).
-/

namespace Reaper.Registry

variable (r : Registry)

/-! ## §1 Slots -/

theorem slotAt_of_size_le {i : Nat} (h : r.slots.size ≤ i) : r.slotAt i = {} := by
  simp [slotAt, Array.getElem?_eq_none h]

theorem lt_size_of_watch {i w : Nat} (h : (r.slotAt i).watch = some w) : i < r.slots.size := by
  refine Nat.lt_of_not_le fun hle => ?_
  rw [r.slotAt_of_size_le hle] at h
  cases h

theorem slotAt_modifySlot (i j : Nat) (f : Slot → Slot) :
    (r.modifySlot i f).slotAt j = if i = j ∧ j < r.slots.size then f (r.slotAt j) else r.slotAt j := by
  simp only [slotAt, modifySlot, Array.getElem?_modify]
  by_cases hij : i = j
  · by_cases hj : j < r.slots.size <;> simp [hij, hj]
  · simp [hij]

@[simp] theorem slot?_modifySlot (i : Nat) (f : Slot → Slot) (uid : String) :
    (r.modifySlot i f).slot? uid = r.slot? uid := rfl

@[simp] theorem size_modifySlot (i : Nat) (f : Slot → Slot) : (r.modifySlot i f).slots.size = r.slots.size :=
  Array.size_modify ..

/-- Stopping the watch of a slot takes it out of that slot. -/
theorem slotAt_stopWatch (i j : Nat) :
    (r.stopWatch i).slotAt j = if i = j then { r.slotAt j with watch := none } else r.slotAt j := by
  unfold stopWatch
  split
  · rename_i w hw
    have hi := r.lt_size_of_watch hw
    rw [show ∀ watches, slotAt { r.modifySlot i ({ · with watch := none }) with watches } j =
      (r.modifySlot i ({ · with watch := none })).slotAt j from fun _ => rfl, slotAt_modifySlot]
    by_cases hij : i = j
    · subst hij
      simp [hi]
    · simp [hij]
  · rename_i hw
    split
    · subst i
      rw [← hw]
    · rfl

theorem watch_stopWatch (i : Nat) : ((r.stopWatch i).slotAt i).watch = none := by
  rw [slotAt_stopWatch, if_pos rfl]

@[simp] theorem slot?_stopWatch (i : Nat) (uid : String) : (r.stopWatch i).slot? uid = r.slot? uid := by
  unfold stopWatch
  split <;> rfl

@[simp] theorem size_stopWatch (i : Nat) : (r.stopWatch i).slots.size = r.slots.size := by
  unfold stopWatch
  split
  · exact size_modifySlot ..
  · rfl

/-- The watch that is stopped is cancelled; the others stay as they are. -/
theorem getElem?_watches_stopWatch (i w : Nat) :
    (r.stopWatch i).watches[w]? =
      (r.watches[w]?).map fun watch =>
        if (r.slotAt i).watch = some w then { watch with cancelled := true } else watch := by
  unfold stopWatch
  split
  · rename_i w' hw
    simp only [Array.getElem?_modify, hw, Option.some.injEq]
    split
    · rfl
    · simp
  · rename_i hw
    simp [hw]

theorem slotAt_addWatch (i j : Nat) (owner : String) (target : WatchTarget) (cancelled : Bool) :
    (r.addWatch i owner target cancelled).slotAt j =
      if i = j ∧ j < r.slots.size then { r.slotAt j with watch := some r.watches.size } else r.slotAt j :=
  r.slotAt_modifySlot i j _

/-- A slot that is retired holds no limiter and is not tracked. -/
theorem slotAt_retire (uid : String) (i j : Nat) :
    (r.retire uid i).slotAt j =
      if i = j ∧ j < r.slots.size then { r.slotAt j with limiter := none, state := .notTracked, retired := true }
      else r.slotAt j := by
  rw [← slotAt_modifySlot r i j fun s => { s with limiter := none, state := .notTracked, retired := true }]
  unfold retire
  dsimp only
  split <;> rfl

/-- The slot of a policy leaves the index when it is retired. -/
theorem slot?_retire {uid : String} {i : Nat} (h : r.slot? uid = some i) (k : String) :
    (r.retire uid i).slot? k = if k = uid then none else r.slot? k := by
  unfold retire
  dsimp only
  rw [slot?_modifySlot, if_pos h]
  exact Dictionary.get?_erase ..

@[simp] theorem watches_retire (uid : String) (i : Nat) : (r.retire uid i).watches = r.watches := by
  unfold retire
  dsimp only
  split <;> rfl

@[simp] theorem size_retire (uid : String) (i : Nat) : (r.retire uid i).slots.size = r.slots.size := by
  unfold retire
  dsimp only
  split <;> exact size_modifySlot ..

theorem slotFor_of_slot? {uid : String} {i : Nat} (h : r.slot? uid = some i) : r.slotFor uid = (i, r) := by
  unfold slotFor
  rw [h]

/-- A policy has a slot, or gets a new one. -/
theorem slotFor_cases (uid : String) :
    (∃ i, r.slot? uid = some i ∧ r.slotFor uid = (i, r)) ∨
      r.slot? uid = none ∧ (r.slotFor uid).1 = r.slots.size ∧ (r.slotFor uid).2.slots.size = r.slots.size + 1 := by
  unfold slotFor
  split
  · rename_i i hi
    exact .inl ⟨i, hi, rfl⟩
  · rename_i hnone
    exact .inr ⟨hnone, rfl, Array.size_push ..⟩

/-- Making a slot changes no slot: a slot that is not there reads like a new one. -/
@[simp] theorem slotAt_slotFor (uid : String) (j : Nat) : (r.slotFor uid).2.slotAt j = r.slotAt j := by
  unfold slotFor
  split
  · rfl
  · simp only [slotAt, Array.getElem?_push]
    split
    · subst j
      simp
    · rfl

@[simp] theorem watches_slotFor (uid : String) : (r.slotFor uid).2.watches = r.watches := by
  unfold slotFor
  split <;> rfl

/-- The slot of a policy, after it has been made if there was none. -/
theorem slot?_slotFor (uid k : String) :
    (r.slotFor uid).2.slot? k = if uid = k then some (r.slotFor uid).1 else r.slot? k := by
  unfold slotFor
  split
  · rename_i i hi
    split
    · subst k
      exact hi
    · rfl
  · exact Dictionary.get?_insert ..

/-! ## §2 Rates -/

/-- Nothing has changed but limiters, states and counters. -/
structure SameWatches (r r' : Registry) : Prop where
  index : r'.index = r.index
  size : r'.slots.size = r.slots.size
  watch : ∀ i, (r'.slotAt i).watch = (r.slotAt i).watch
  retired : ∀ i, (r'.slotAt i).retired = (r.slotAt i).retired
  watches : r'.watches = r.watches

theorem SameWatches.refl : SameWatches r r := ⟨rfl, rfl, fun _ => rfl, fun _ => rfl, rfl⟩

theorem SameWatches.countAttempt : SameWatches r r.countAttempt := ⟨rfl, rfl, fun _ => rfl, fun _ => rfl, rfl⟩

theorem SameWatches.modifySlot (i : Nat) (f : Slot → Slot) (hw : ∀ s, (f s).watch = s.watch)
    (hr : ∀ s, (f s).retired = s.retired) : SameWatches r (r.modifySlot i f) where
  index := rfl
  size := size_modifySlot ..
  watch j := by
    rw [slotAt_modifySlot]
    split
    · exact hw _
    · rfl
  retired j := by
    rw [slotAt_modifySlot]
    split
    · exact hr _
    · rfl
  watches := rfl

theorem SameWatches.setRate (i : Nat) (rate : Binary64) (now : Duration) : SameWatches r (r.setRate i rate now).2 := by
  unfold Registry.setRate
  split
  · exact .refl r
  · split
    · exact ⟨rfl, rfl, fun _ => rfl, fun _ => rfl, rfl⟩
    · have h := SameWatches.modifySlot r i ({ · with limiter := some r.limiters.size }) (fun _ => rfl) fun _ => rfl
      exact ⟨h.index, h.size, h.watch, h.retired, h.watches⟩

theorem SameWatches.finishEnsure (i : Nat) (rate : Binary64) (now : Duration) (outcome : EnsureOutcome) :
    SameWatches r (r.finishEnsure i rate now outcome).2 := by
  have h := SameWatches.setRate r i rate now
  unfold Registry.finishEnsure
  rcases hs : r.setRate i rate now with ⟨_ | _, r'⟩ <;> simpa [hs] using h

variable {r} {r' : Registry}

theorem SameWatches.slot? (h : SameWatches r r') (uid : String) : r'.slot? uid = r.slot? uid := by
  rw [Registry.slot?, h.index]
  rfl

theorem SameWatches.watchOf? (h : SameWatches r r') (i : Nat) : r'.watchOf? i = r.watchOf? i := by
  rw [Registry.watchOf?, h.watch, h.watches]
  rfl

/-! ## §3 Ensure -/

/-- Handles tell the target of the watch. -/
theorem watchOf?_of_handlesAt {i : Nat} {h : Handles} (hh : r.handlesAt i = some h) :
    ∃ w, r.watchOf? i = some w ∧ w.target = h.target := by
  unfold handlesAt at hh
  simp only [Option.bind_eq_bind, Option.bind_eq_some_iff, Option.some.injEq] at hh
  obtain ⟨w, hw, l, hl, watch, hwatch, rfl⟩ := hh
  exact ⟨watch, by simp [watchOf?, hw, hwatch], rfl⟩

/-- A watch that has been opened for a slot is the watch of that slot, if the slot exists. -/
theorem watchOf?_addWatch {i : Nat} {owner : String} {target : WatchTarget} {cancelled : Bool} {w : Watch}
    (hnone : (r.slotAt i).watch = none) (hw : (r.addWatch i owner target cancelled).watchOf? i = some w) :
    w = { owner, target, cancelled } := by
  unfold watchOf? at hw
  rw [slotAt_addWatch] at hw
  split at hw
  · simpa [addWatch] using hw.symm
  · simp [hnone] at hw

/-- After a successful `ensure` the handles of the policy are on the target that was asked for. -/
theorem target_of_ensure {σ : Type} {openWatch : WatchTarget → σ → Except WatchError Bool × σ} {uid : String}
    {target : WatchTarget} {rate : Binary64} {now : Duration} {world world' : σ} {outcome : EnsureOutcome} {h : Handles}
    (hensure : r.ensure openWatch uid target rate now world = ((.ok outcome, r'), world'))
    (hh : r'.handles? uid = some h) : h.target = target := by
  have hslot := slot?_slotFor r uid uid
  unfold ensure at hensure
  generalize hfor : r.slotFor uid = made at hensure hslot
  obtain ⟨i, r₀⟩ := made
  rw [if_pos rfl] at hslot
  simp only at hensure hslot
  -- the registry before the rate was set has the same watches
  have hlast {r₁ : Registry} {o : EnsureOutcome} (hslot₁ : r₁.slot? uid = some i)
      (hfinish : r' = (r₁.finishEnsure i rate now o).2) : ∃ w, r₁.watchOf? i = some w ∧ w.target = h.target := by
    have hsame : SameWatches r₁ r' := hfinish ▸ .finishEnsure r₁ i rate now o
    rw [handles?, hsame.slot?, hslot₁] at hh
    rw [← hsame.watchOf?]
    exact watchOf?_of_handlesAt hh
  split at hensure
  · rename_i hneed
    obtain ⟨w, hw, htarget⟩ := hlast hslot (congrArg (·.1.2) hensure).symm
    rw [← htarget]
    unfold need at hneed
    rw [hw] at hneed
    dsimp only at hneed
    split at hneed
    · assumption
    · cases hneed
  · split at hensure
    · cases hensure
    · rename_i cancelled _ _
      have hnone : ((r₀.stopWatch i).countAttempt.slotAt i).watch = none := r₀.watch_stopWatch i
      have hadded : ((r₀.stopWatch i).countAttempt.addWatch i uid target cancelled).slot? uid = some i :=
        (slot?_stopWatch r₀ i uid).trans hslot
      obtain ⟨w, hw, htarget⟩ := hlast hadded (congrArg (·.1.2) hensure).symm
      rw [← htarget, watchOf?_addWatch hnone hw]

end Reaper.Registry
