import Reaper.Proofs.Registry.Steps

/-!
What always holds of a registry, and what a step on one slot leaves alone.

  §1 Soundness — the index points to different slots that are in use; a slot that holds a watch belongs to the owner of
                 that watch; and a watch that is not cancelled is held by its owner (`Sound`). So a policy has at most
                 one watch that is not cancelled (`Sound.isLive_unique`).
  §2 Steps     — every step keeps a registry sound.
  §3 Frames    — a step on one slot spares the others (`Spares`): nothing about them changes, no slot comes back from
                 retirement, and only the slot itself can leave the index.
-/

namespace Reaper.Registry

/-! ## §1 Soundness -/

/-- The watch that is held for a policy. -/
def held? (r : Registry) (uid : String) : Option Nat := (r.slot? uid).bind fun i => (r.slotAt i).watch

theorem held?_eq_some_iff {r : Registry} {uid : String} {w : Nat} :
    r.held? uid = some w ↔ ∃ i, r.slot? uid = some i ∧ (r.slotAt i).watch = some w :=
  Option.bind_eq_some_iff

/-- The watch has been opened for the policy and not been cancelled. -/
def IsLive (r : Registry) (uid : String) (w : Nat) : Prop :=
  ∃ watch, r.watches[w]? = some watch ∧ watch.owner = uid ∧ watch.cancelled = false

/-- The index, the slots and the watches agree. Of a watch that is held, `P` says whether it may be cancelled: that is
up to whoever opens watches. -/
structure Sound (P : Bool → Prop) (r : Registry) : Prop where
  lt_size : ∀ {uid i}, r.slot? uid = some i → i < r.slots.size
  inUse : ∀ {uid i}, r.slot? uid = some i → (r.slotAt i).retired = false
  injective : ∀ {uid uid' i}, r.slot? uid = some i → r.slot? uid' = some i → uid = uid'
  holds : ∀ {i w}, (r.slotAt i).watch = some w →
    ∃ watch, r.watches[w]? = some watch ∧ r.slot? watch.owner = some i ∧ P watch.cancelled
  isHeld : ∀ {uid w}, r.IsLive uid w → r.held? uid = some w

variable {P : Bool → Prop} {r r' : Registry}

/-- A policy has at most one watch that is not cancelled. -/
theorem Sound.isLive_unique (h : Sound P r) {uid : String} {w w' : Nat} (hw : r.IsLive uid w)
    (hw' : r.IsLive uid w') : w = w' :=
  Option.some.inj ((h.isHeld hw).symm.trans (h.isHeld hw'))

/-- A policy whose slot holds no watch has none that is not cancelled. -/
theorem Sound.not_isLive (h : Sound P r) {uid : String} {i : Nat} (hslot : r.slot? uid = some i)
    (hnone : (r.slotAt i).watch = none) (w : Nat) : ¬ r.IsLive uid w := by
  intro hw
  have hheld := h.isHeld hw
  simp [held?, hslot, hnone] at hheld

/-- A watch that is open belongs to a policy with a slot. -/
theorem Sound.not_isLive_of_none (h : Sound P r) {uid : String} (hslot : r.slot? uid = none) (w : Nat) :
    ¬ r.IsLive uid w := by
  intro hw
  have hheld := h.isHeld hw
  simp [held?, hslot] at hheld

/-- Two slots do not hold one watch. -/
theorem Sound.slot_unique (h : Sound P r) {i j w : Nat} (hi : (r.slotAt i).watch = some w)
    (hj : (r.slotAt j).watch = some w) : i = j := by
  obtain ⟨watch, hwatch, hslot, -⟩ := h.holds hi
  obtain ⟨watch', hwatch', hslot', -⟩ := h.holds hj
  obtain rfl : watch = watch' := Option.some.inj (hwatch.symm.trans hwatch')
  exact Option.some.inj (hslot.symm.trans hslot')

theorem sound_empty : Sound P {} where
  lt_size h := by cases h
  inUse h := by cases h
  injective h := by cases h
  holds h := by cases h
  isHeld := by
    rintro uid w ⟨watch, hwatch, -⟩
    simp at hwatch

/-! ## §2 Steps -/

/-- Steps that change no watch keep a registry sound. -/
theorem Sound.sameWatches (h : Sound P r) (hs : SameWatches r r') : Sound P r' where
  lt_size := by
    intro uid i hi
    rw [hs.size]
    exact h.lt_size (hs.slot? uid ▸ hi)
  inUse := by
    intro uid i hi
    rw [hs.retired]
    exact h.inUse (hs.slot? uid ▸ hi)
  injective := by
    intro uid uid' i hi hi'
    exact h.injective (hs.slot? uid ▸ hi) (hs.slot? uid' ▸ hi')
  holds := by
    intro i w hw
    rw [hs.watch] at hw
    obtain ⟨watch, hwatch, hslot, hP⟩ := h.holds hw
    exact ⟨watch, hs.watches ▸ hwatch, (hs.slot? _).trans hslot, hP⟩
  isHeld := by
    intro uid w hw
    have hlive : r.IsLive uid w := by
      unfold IsLive at hw ⊢
      rwa [hs.watches] at hw
    simpa [held?, hs.slot?, hs.watch] using h.isHeld hlive

/-- Looking a policy up, and making a slot for it if there is none. -/
theorem Sound.slotFor (h : Sound P r) (uid : String) : Sound P (r.slotFor uid).2 := by
  obtain ⟨i, -, heq⟩ | ⟨hnone, hfst, hsize⟩ := r.slotFor_cases uid
  · rw [heq]
    exact h
  have hslot (k : String) : (r.slotFor uid).2.slot? k = if uid = k then some r.slots.size else r.slot? k := by
    rw [slot?_slotFor, hfst]
  -- who had a slot has it still, and it is not the new one
  have hold {k : String} {i : Nat} (hk : r.slot? k = some i) : (r.slotFor uid).2.slot? k = some i := by
    rw [hslot, if_neg]
    · exact hk
    · rintro rfl
      simp [hnone] at hk
  exact
    { lt_size := by
        intro k i hk
        rw [hsize]
        rw [hslot] at hk
        split at hk
        · cases hk
          exact Nat.lt_succ_self _
        · exact Nat.lt_succ_of_lt (h.lt_size hk)
      inUse := by
        intro k i hk
        rw [slotAt_slotFor]
        rw [hslot] at hk
        split at hk
        · cases hk
          rw [slotAt_of_size_le r (Nat.le_refl _)]
        · exact h.inUse hk
      injective := by
        intro k k' i hk hk'
        rw [hslot] at hk hk'
        split at hk <;> split at hk'
        · rename_i huid huid'
          exact huid.symm.trans huid'
        · cases hk
          exact absurd (h.lt_size hk') (Nat.lt_irrefl _)
        · cases hk'
          exact absurd (h.lt_size hk) (Nat.lt_irrefl _)
        · exact h.injective hk hk'
      holds := by
        intro i w hw
        rw [slotAt_slotFor] at hw
        obtain ⟨watch, hwatch, howner, hP⟩ := h.holds hw
        exact ⟨watch, by simpa using hwatch, hold howner, hP⟩
      isHeld := by
        intro k w hw
        unfold IsLive at hw
        rw [watches_slotFor] at hw
        obtain ⟨i, hi, hheld⟩ := held?_eq_some_iff.mp (h.isHeld hw)
        exact held?_eq_some_iff.mpr ⟨i, hold hi, (slotAt_slotFor r uid i).symm ▸ hheld⟩ }

theorem Sound.stopWatch (h : Sound P r) (i : Nat) : Sound P (r.stopWatch i) where
  lt_size := by
    intro uid j hj
    rw [slot?_stopWatch] at hj
    rw [size_stopWatch]
    exact h.lt_size hj
  inUse := by
    intro uid j hj
    rw [slot?_stopWatch] at hj
    rw [slotAt_stopWatch]
    split <;> exact h.inUse hj
  injective := by
    intro uid uid' j hj hj'
    rw [slot?_stopWatch] at hj hj'
    exact h.injective hj hj'
  holds := by
    intro j w hw
    rw [slotAt_stopWatch] at hw
    split at hw
    · cases hw
    · rename_i hij
      obtain ⟨watch, hwatch, hslot, hP⟩ := h.holds hw
      refine ⟨watch, ?_, by simpa using hslot, hP⟩
      -- the watch that was stopped is another one
      rw [getElem?_watches_stopWatch, hwatch, Option.map_some, if_neg fun hi => hij (h.slot_unique hi hw)]
  isHeld := by
    rintro uid w ⟨watch, hwatch, howner, hlive⟩
    rw [getElem?_watches_stopWatch] at hwatch
    obtain ⟨watch', hwatch', hsame⟩ := Option.map_eq_some_iff.mp hwatch
    split at hsame
    · subst hsame
      cases hlive
    · subst hsame
      rename_i hother
      obtain ⟨j, hj, hheld⟩ := held?_eq_some_iff.mp (h.isHeld ⟨watch', hwatch', howner, hlive⟩)
      refine held?_eq_some_iff.mpr ⟨j, by simpa using hj, ?_⟩
      rw [slotAt_stopWatch, if_neg]
      · exact hheld
      · rintro rfl
        exact hother hheld

/-- Putting a watch that has just been opened into the empty slot of its owner. -/
theorem Sound.addWatch (h : Sound P r) {uid : String} {i : Nat} (hslot : r.slot? uid = some i)
    (hnone : (r.slotAt i).watch = none) (target : WatchTarget) {cancelled : Bool} (hP : P cancelled) :
    Sound P (r.addWatch i uid target cancelled) := by
  have hi := h.lt_size hslot
  have hwatches (w : Nat) : (r.addWatch i uid target cancelled).watches[w]? =
      if w = r.watches.size then some { owner := uid, target, cancelled } else r.watches[w]? := Array.getElem?_push
  have hlt {w : Nat} {watch : Watch} (hw : r.watches[w]? = some watch) : w ≠ r.watches.size := by
    rintro rfl
    simp at hw
  exact
    { lt_size := by
        intro k j hk
        exact Nat.lt_of_lt_of_eq (h.lt_size hk) (size_modifySlot ..).symm
      inUse := by
        intro k j hk
        rw [slotAt_addWatch]
        split <;> exact h.inUse hk
      injective := h.injective
      holds := by
        intro j w hw
        rw [slotAt_addWatch] at hw
        split at hw
        · rename_i hij
          obtain rfl := hij.1
          cases hw
          exact ⟨_, (hwatches _).trans (if_pos rfl), hslot, hP⟩
        · obtain ⟨watch, hwatch, hslot', hP'⟩ := h.holds hw
          exact ⟨watch, (hwatches w).trans ((if_neg (hlt hwatch)).trans hwatch), hslot', hP'⟩
      isHeld := by
        rintro k w ⟨watch, hwatch, howner, hlive⟩
        rw [hwatches] at hwatch
        split at hwatch
        · subst w
          cases hwatch
          subst howner
          refine held?_eq_some_iff.mpr ⟨i, hslot, ?_⟩
          rw [slotAt_addWatch, if_pos ⟨rfl, hi⟩]
        · obtain ⟨j, hj, hheld⟩ := held?_eq_some_iff.mp (h.isHeld ⟨watch, hwatch, howner, hlive⟩)
          refine held?_eq_some_iff.mpr ⟨j, hj, ?_⟩
          rw [slotAt_addWatch, if_neg]
          · exact hheld
          · rintro ⟨rfl, -⟩
            simp [hnone] at hheld }

/-- Retiring the empty slot of a policy. -/
theorem Sound.retire (h : Sound P r) {uid : String} {i : Nat} (hslot : r.slot? uid = some i)
    (hnone : (r.slotAt i).watch = none) : Sound P (r.retire uid i) := by
  -- who still has a slot had it before, and it is not the retired one
  have hold {k : String} {j : Nat} (hk : (r.retire uid i).slot? k = some j) : r.slot? k = some j ∧ i ≠ j := by
    rw [slot?_retire r hslot] at hk
    split at hk
    · cases hk
    · rename_i hne
      refine ⟨hk, ?_⟩
      rintro rfl
      exact hne (h.injective hk hslot)
  have hother {k : String} {j : Nat} (hij : i ≠ j) (hk : r.slot? k = some j) :
      (r.retire uid i).slot? k = some j := by
    rw [slot?_retire r hslot, if_neg]
    · exact hk
    · rintro rfl
      exact hij (Option.some.inj (hslot.symm.trans hk))
  have hwatch (j : Nat) : ((r.retire uid i).slotAt j).watch = (r.slotAt j).watch := by
    rw [slotAt_retire]
    split <;> rfl
  have hne {j w : Nat} (hw : (r.slotAt j).watch = some w) : i ≠ j := by
    rintro rfl
    simp [hnone] at hw
  exact
    { lt_size := by
        intro k j hk
        rw [size_retire]
        exact h.lt_size (hold hk).1
      inUse := by
        intro k j hk
        rw [slotAt_retire, if_neg fun hij => (hold hk).2 hij.1]
        exact h.inUse (hold hk).1
      injective := by
        intro k k' j hk hk'
        exact h.injective (hold hk).1 (hold hk').1
      holds := by
        intro j w hw
        rw [hwatch] at hw
        obtain ⟨watch, hwatch', howner, hP⟩ := h.holds hw
        exact ⟨watch, by simpa using hwatch', hother (hne hw) howner, hP⟩
      isHeld := by
        intro k w hw
        unfold IsLive at hw
        rw [watches_retire] at hw
        obtain ⟨j, hj, hheld⟩ := held?_eq_some_iff.mp (h.isHeld hw)
        exact held?_eq_some_iff.mpr ⟨j, hother (hne hheld) hj, (hwatch j).trans hheld⟩ }

theorem remove_of_none {uid : String} (h : r.slot? uid = none) : r.remove uid = (false, r) := by
  simp [remove, h]

theorem remove_of_slot? {uid : String} {i : Nat} (h : r.slot? uid = some i) :
    r.remove uid = ((r.slotAt i).isHolding, (r.stopWatch i).retire uid i) := by
  simp [remove, h]

/-- A policy that is let go of has no slot any more, and the others keep theirs. -/
theorem slot?_remove (r : Registry) (uid k : String) :
    (r.remove uid).2.slot? k = if k = uid then none else r.slot? k := by
  cases h : r.slot? uid with
  | none =>
    rw [remove_of_none h]
    split
    · subst k
      exact h
    · rfl
  | some i =>
    have hslot : (r.stopWatch i).slot? uid = some i := by simpa using h
    rw [remove_of_slot? h, slot?_retire _ hslot, slot?_stopWatch]

/-- Letting go of a policy. -/
theorem Sound.remove (h : Sound P r) (uid : String) : Sound P (r.remove uid).2 := by
  cases hslot : r.slot? uid with
  | none =>
    rw [remove_of_none hslot]
    exact h
  | some i =>
    have hslot' : (r.stopWatch i).slot? uid = some i := by simpa using hslot
    rw [remove_of_slot? hslot]
    exact (h.stopWatch i).retire hslot' (r.watch_stopWatch i)

/-- What is kept by letting go of one policy is kept by letting go of several. -/
theorem removeAll_induction {motive : Registry → Prop} (hremove : ∀ r uid, motive r → motive (r.remove uid).2)
    (h : motive r) (uids : List String) : motive (r.removeAll uids).2 := by
  induction uids generalizing r with
  | nil => exact h
  | cons uid rest ih => exact ih (hremove r uid h)

theorem Sound.removeAll (h : Sound P r) (uids : List String) : Sound P (r.removeAll uids).2 :=
  removeAll_induction (fun _ uid h => h.remove uid) h uids

/-! ## §3 Frames -/

/-- The step from `r` to `r'` spares all slots but `i`. -/
structure Spares (i : Nat) (r r' : Registry) : Prop where
  size_le : r.slots.size ≤ r'.slots.size
  watch : ∀ {j}, j ≠ i → (r'.slotAt j).watch = (r.slotAt j).watch
  retired : ∀ {j}, (r.slotAt j).retired = true → (r'.slotAt j).retired = true
  slot? : ∀ {uid j}, r.slot? uid = some j → r'.slot? uid = some j ∨ j = i ∧ (r'.slotAt j).retired = true

theorem Spares.trans {i : Nat} {r₁ r₂ r₃ : Registry} (h : Spares i r₁ r₂) (h' : Spares i r₂ r₃) : Spares i r₁ r₃ where
  size_le := Nat.le_trans h.size_le h'.size_le
  watch hj := (h'.watch hj).trans (h.watch hj)
  retired hr := h'.retired (h.retired hr)
  slot? hs := by
    rcases h.slot? hs with hs | ⟨rfl, hr⟩
    · exact h'.slot? hs
    · exact .inr ⟨rfl, h'.retired hr⟩

theorem SameWatches.spares (h : SameWatches r r') (i : Nat) : Spares i r r' where
  size_le := Nat.le_of_eq h.size.symm
  watch _ := h.watch _
  retired hr := (h.retired _).trans hr
  slot? hs := .inl ((h.slot? _).trans hs)

theorem Spares.slotFor (i : Nat) (r : Registry) (uid : String) : Spares i r (r.slotFor uid).2 where
  size_le := by
    obtain ⟨j, -, heq⟩ | ⟨-, -, hsize⟩ := r.slotFor_cases uid
    · exact Nat.le_of_eq (by rw [heq])
    · rw [hsize]
      exact Nat.le_succ _
  watch _ := by rw [slotAt_slotFor]
  retired hr := by rwa [slotAt_slotFor]
  slot? := by
    intro k j hk
    rw [slot?_slotFor]
    split
    · subst k
      obtain ⟨i', hi', heq⟩ | ⟨hnone, -⟩ := r.slotFor_cases uid
      · rw [heq]
        exact .inl (hi'.symm.trans hk)
      · simp [hnone] at hk
    · exact .inl hk

theorem Spares.stopWatch (r : Registry) (i : Nat) : Spares i r (r.stopWatch i) where
  size_le := Nat.le_of_eq (size_stopWatch ..).symm
  watch hj := by rw [slotAt_stopWatch, if_neg (Ne.symm hj)]
  retired hr := by
    rw [slotAt_stopWatch]
    split <;> exact hr
  slot? hs := .inl ((slot?_stopWatch ..).trans hs)

theorem Spares.addWatch (r : Registry) (i : Nat) (owner : String) (target : WatchTarget) (cancelled : Bool) :
    Spares i r (r.addWatch i owner target cancelled) where
  size_le := Nat.le_of_eq (size_modifySlot ..).symm
  watch hj := by rw [slotAt_addWatch, if_neg fun hij => hj hij.1.symm]
  retired hr := by
    rw [slotAt_addWatch]
    split <;> exact hr
  slot? hs := .inl hs

theorem Spares.retire (h : Sound P r) {uid : String} {i : Nat} (hslot : r.slot? uid = some i) :
    Spares i r (r.retire uid i) where
  size_le := Nat.le_of_eq (size_retire ..).symm
  watch hj := by rw [slotAt_retire, if_neg fun hij => hj hij.1.symm]
  retired hr := by
    rw [slotAt_retire]
    split
    · rfl
    · exact hr
  slot? := by
    intro k j hk
    rw [slot?_retire r hslot]
    split
    · subst k
      obtain rfl := Option.some.inj (hslot.symm.trans hk)
      rw [slotAt_retire, if_pos ⟨rfl, h.lt_size hslot⟩]
      exact .inr ⟨rfl, rfl⟩
    · exact .inl hk

end Reaper.Registry
