import Reaper.Proofs.Registry.Sound
import Reaper.Registry.Task

/-!
Operations on the registry, one step at a time.

  §1 Agreement — what a task that waits knows about the slot that it waits for or is at work on (`Agrees`). It stays
                 true when others go on, as long as they spare that slot (`Agrees.spares`).
  §2 Steps     — what the parts of an operation leave behind (`Leaves`): a sound registry, a task that agrees with it,
                 other slots that were spared, and no new watch for a policy that still has one.
-/

namespace Reaper.Task

open Registry (Sound SameWatches Spares)

/-! ## §1 Agreement -/

/-- What a task knows about the registry. -/
structure Agrees (t : Task) (r : Registry) : Prop where
  /-- a slot that a task waits for is retired, or still the slot of its policy -/
  queued : ∀ {i uid rest}, t.point = .queued i → t.uids = uid :: rest →
    i < r.slots.size ∧ ((r.slotAt i).retired = true ∨ r.slot? uid = some i)
  /-- a slot that a task is at work on, while that waits, is the slot of its policy and holds no watch -/
  working : ∀ {i}, t.holds? = some i → ∃ uid rest, t.uids = uid :: rest ∧ r.slot? uid = some i ∧
    (r.slotAt i).watch = none

variable {P : Bool → Prop} {r r' : Registry} {t : Task} {i : Nat}

/-- What a task knows stays true when another slot than the one it is at work on is changed. -/
theorem Agrees.spares (h : t.Agrees r) (hs : Spares i r r') (hi : t.holds? ≠ some i) : t.Agrees r' where
  queued := by
    intro j uid rest hpoint huids
    obtain ⟨hlt, hslot⟩ := h.queued hpoint huids
    refine ⟨Nat.lt_of_lt_of_le hlt hs.size_le, ?_⟩
    rcases hslot with hretired | hslot
    · exact .inl (hs.retired hretired)
    · rcases hs.slot? hslot with hslot | ⟨-, hretired⟩
      · exact .inr hslot
      · exact .inl hretired
  working := by
    intro j hj
    have hji : j ≠ i := by
      rintro rfl
      exact hi hj
    obtain ⟨uid, rest, huids, hslot, hnone⟩ := h.working hj
    refine ⟨uid, rest, huids, ?_, (hs.watch hji).trans hnone⟩
    rcases hs.slot? hslot with hslot | ⟨heq, -⟩
    · exact hslot
    · exact absurd heq hji

/-- A task that waits for no slot and is at work on none knows nothing. -/
theorem agrees_of_free (hq : ∀ i, t.point ≠ .queued i) (hh : t.holds? = none) : t.Agrees r where
  queued hpoint _ := absurd hpoint (hq _)
  working hi := by simp [hh] at hi

@[simp] theorem holds?_finish (t : Task) (res : TaskResult) : (t.finish res).holds? = none := rfl

@[simp] theorem holds?_next (t : Task) (held : Bool) : (t.next held).holds? = none := by
  unfold next
  split <;> rfl

theorem agrees_finish (t : Task) (res : TaskResult) : (t.finish res).Agrees r :=
  agrees_of_free (fun _ h => by cases h) rfl

theorem agrees_next (t : Task) (held : Bool) : (t.next held).Agrees r := by
  refine agrees_of_free (fun i h => ?_) (holds?_next t held)
  unfold next at h
  split at h <;> cases h

/-- A task at work on the slot of its policy, which holds no watch. -/
theorem agrees_of_working {uid : String} {rest : List String} (huids : t.uids = uid :: rest)
    (hh : t.holds? = some i) (hslot : r.slot? uid = some i) (hnone : (r.slotAt i).watch = none) : t.Agrees r where
  queued hpoint _ := by simp [holds?, hpoint] at hh
  working hj := by
    cases hh.symm.trans hj
    exact ⟨uid, rest, huids, hslot, hnone⟩

/-! ## §2 Steps -/

/-- What a step on slot `i` leaves: a registry and a task. -/
structure Leaves (P : Bool → Prop) (r : Registry) (i : Nat) (left : Registry × Task) : Prop where
  sound : Sound P left.1
  agrees : left.2.Agrees left.1
  spares : Spares i r left.1
  holds : ∀ {j}, left.2.holds? = some j → j = i
  /-- the owner of a watch that has appeared had no other one -/
  fresh : ∀ {w : Nat} {watch : Watch}, r.watches[w]? = none → left.1.watches[w]? = some watch →
    ∀ w', ¬ r.IsLive watch.owner w'

/-- A step that changes no watch. -/
theorem Leaves.of_sameWatches (h : Sound P r) (hs : SameWatches r r') (hagrees : t.Agrees r')
    (hholds : ∀ {j}, t.holds? = some j → j = i) : Leaves P r i (r', t) where
  sound := h.sameWatches hs
  agrees := hagrees
  spares := hs.spares i
  holds := hholds
  fresh hnone hsome := by
    rw [show r'.watches = r.watches from hs.watches, hnone] at hsome
    cases hsome

/-- A step that stops the watch of a slot, and waits for it to stop. -/
theorem Leaves.stopWatch (h : Sound P r) {uid : String} {rest : List String} (huids : t.uids = uid :: rest)
    (hslot : r.slot? uid = some i) (held : Bool) :
    Leaves P r i (r.stopWatch i, { t with point := .stopping i held }) where
  sound := h.stopWatch i
  agrees := agrees_of_working huids rfl (by simpa using hslot) (r.watch_stopWatch i)
  spares := .stopWatch r i
  holds hj := by
    cases hj
    rfl
  fresh hnone hsome := by
    simp [Registry.getElem?_watches_stopWatch, hnone] at hsome

/-- A step that retires a slot, and goes on to the next policy. -/
theorem Leaves.retire (h : Sound P r) {uid : String} (hslot : r.slot? uid = some i)
    (hnone : (r.slotAt i).watch = none) (held : Bool) : Leaves P r i (r.retire uid i, t.next held) where
  sound := h.retire hslot hnone
  agrees := agrees_next t held
  spares := .retire h hslot
  holds hj := by simp at hj
  fresh hnone hsome := by simp [hnone] at hsome

/-- A slot that is said to need its first watch holds none. -/
theorem watch_eq_none_of_need (h : Sound P r) {target : WatchTarget} {outcome : EnsureOutcome}
    (hneed : r.need i target = .opening outcome) (hne : outcome ≠ .replaced) : (r.slotAt i).watch = none := by
  rw [Option.eq_none_iff_forall_ne_some]
  intro w hw
  obtain ⟨watch, hwatch, -⟩ := h.holds hw
  have hof : r.watchOf? i = some watch := by simp [Registry.watchOf?, hw, hwatch]
  unfold Registry.need at hneed
  rw [hof] at hneed
  dsimp only at hneed
  split at hneed
  · cases hneed
  · cases hneed
    exact hne rfl

theorem leaves_work (h : Sound P r) {uid : String} {rest : List String} (huids : t.uids = uid :: rest)
    (hslot : r.slot? uid = some i) (now : Duration) : Leaves P r i (t.work r uid i now) := by
  unfold work
  split
  · rename_i target rate _
    split
    · exact .of_sameWatches h (.finishEnsure r i rate now .reused) (agrees_finish t _) fun hj => by simp at hj
    · exact .stopWatch h huids hslot true
    · rename_i outcome hne hneed
      have hnone := watch_eq_none_of_need h hneed hne
      refine .of_sameWatches h (.countAttempt r) (agrees_of_working huids rfl hslot hnone) fun hj => ?_
      cases hj
      rfl
  · dsimp only
    split
    · exact .stopWatch h huids hslot _
    · rename_i hwatch
      exact .retire h hslot (by simpa using hwatch) _
  · exact .of_sameWatches h (.modifySlot r i _ (fun _ => rfl) fun _ => rfl) (agrees_finish t _) fun hj => by simp at hj
  · exact .of_sameWatches h (.refl r) (agrees_finish t _) fun hj => by simp at hj

theorem leaves_stopped (h : Sound P r) {uid : String} {rest : List String} (huids : t.uids = uid :: rest)
    (hslot : r.slot? uid = some i) (hnone : (r.slotAt i).watch = none) (held : Bool) :
    Leaves P r i (t.stopped r uid i held) := by
  unfold stopped
  split
  · refine .of_sameWatches h (.countAttempt r) (agrees_of_working huids rfl hslot hnone) fun hj => ?_
    cases hj
    rfl
  · exact .retire h hslot hnone held

/-- Going on after the opening of a watch for the slot. -/
theorem leaves_opened (h : Sound P r) (ht : t.Agrees r) (hholds : t.holds? = some i) {uid : String}
    (hslot : r.slot? uid = some i) (hnone : (r.slotAt i).watch = none) (outcome : EnsureOutcome) (now : Duration)
    {watch : Except WatchError Bool} (hP : ∀ cancelled, watch = .ok cancelled → P cancelled) :
    Leaves P r i (t.opened r uid i outcome now watch) := by
  unfold opened
  split
  · rename_i target rate _
    split
    · exact .of_sameWatches h (.refl r) (agrees_finish t _) fun hj => by simp at hj
    · rename_i cancelled
      have hsame := SameWatches.finishEnsure (r.addWatch i uid target cancelled) i rate now outcome
      exact
        { sound := (h.addWatch hslot hnone target (hP cancelled rfl)).sameWatches hsame
          agrees := agrees_finish t _
          spares := (Spares.addWatch r i uid target cancelled).trans (hsame.spares i)
          holds := fun hj => by simp at hj
          fresh := by
            intro w watch hold hnew
            have hpush : (r.addWatch i uid target cancelled).watches[w]? = some watch := hsame.watches ▸ hnew
            rw [Registry.addWatch, Array.getElem?_push] at hpush
            split at hpush
            · cases hpush
              exact h.not_isLive hslot hnone
            · simp [hold] at hpush }
  · exact .of_sameWatches h (.refl r) ht fun hj => by simpa [hholds, eq_comm] using hj

/-- A step in which nothing is changed, by a task that is at work on no slot after it. -/
theorem Leaves.of_free (h : Sound P r) (hq : ∀ i, t.point ≠ .queued i) (hh : t.holds? = none) (i : Nat) :
    Leaves P r i (r, t) :=
  .of_sameWatches h (.refl r) (agrees_of_free hq hh) fun hj => by simp [hh] at hj

/-- Looking the slot of a policy up, and making it if there is none. -/
theorem leaves_slotFor (h : Sound P r) {uid : String} {rest : List String} (huids : t.uids = uid :: rest) (i : Nat) :
    Leaves P r i ((r.slotFor uid).2, { t with point := .queued (r.slotFor uid).1 }) where
  sound := h.slotFor uid
  agrees :=
    { queued := by
        intro j uid' rest' hpoint huids'
        cases hpoint
        obtain rfl : uid = uid' := List.head_eq_of_cons_eq (huids.symm.trans huids')
        have hslot : (r.slotFor uid).2.slot? uid = some (r.slotFor uid).1 := by
          rw [Registry.slot?_slotFor, if_pos rfl]
        exact ⟨(h.slotFor uid).lt_size hslot, .inr hslot⟩
      working := fun hj => by cases hj }
  spares := .slotFor i r uid
  holds hj := by cases hj
  fresh hnone hsome := by simp [hnone] at hsome

/-- A task that finds no slot for its policy goes on without one. -/
theorem leaves_missing (h : Sound P r) (i : Nat) : Leaves P r i (r, t.missing) := by
  unfold missing
  split
  · exact .of_sameWatches h (.refl r) (agrees_next t false) fun hj => by simp at hj
  · exact .of_sameWatches h (.refl r) (agrees_finish t _) fun hj => by simp at hj

/-- Letting a task go on: it takes a step on some slot, one that it is at work on, one that nobody is at work on, or one
that is not there yet. -/
theorem leaves_advance (h : Sound P r) (ht : t.Agrees r) {free : Nat → Bool} {now : Duration}
    {watch : Except WatchError Bool} (hP : ∀ cancelled, watch = .ok cancelled → P cancelled) :
    ∃ i, Leaves P r i (t.advance r free now watch) ∧ (t.holds? = some i ∨ free i = true ∨ i = r.slots.size) := by
  unfold advance
  split
  · rename_i hpoint
    refine ⟨r.slots.size, .of_free h ?_ ?_ _, .inr (.inr rfl)⟩
    · simp [hpoint]
    · simp [holds?, hpoint]
  · exact ⟨r.slots.size, .of_free h (fun _ hj => by cases hj) rfl _, .inr (.inr rfl)⟩
  · exact ⟨r.slots.size, .of_free h (fun _ hj => by cases hj) rfl _, .inr (.inr rfl)⟩
  · rename_i uid rest hpoint huids
    split
    · exact ⟨r.slots.size, leaves_slotFor h huids _, .inr (.inr rfl)⟩
    · split
      · rename_i i hi
        have hleaves := leaves_slotFor h huids r.slots.size
        rw [r.slotFor_of_slot? hi] at hleaves
        exact ⟨r.slots.size, hleaves, .inr (.inr rfl)⟩
      · exact ⟨r.slots.size, leaves_missing h _, .inr (.inr rfl)⟩
  · rename_i i uid rest hpoint huids
    split
    · have hholds : t.holds? = none := by simp [holds?, hpoint]
      exact ⟨r.slots.size, .of_sameWatches h (.refl r) ht fun hj => by simp [hholds] at hj, .inr (.inr rfl)⟩
    · rename_i hfree
      split
      · exact ⟨r.slots.size, .of_free h (fun _ hj => by cases hj) rfl _, .inr (.inr rfl)⟩
      · rename_i hretired
        have hslot : r.slot? uid = some i := (ht.queued hpoint huids).2.resolve_left hretired
        exact ⟨i, leaves_work h huids hslot now, .inr (.inl (by simpa using hfree))⟩
  · rename_i i held uid rest hpoint huids
    have hholds : t.holds? = some i := by simp [holds?, hpoint]
    obtain ⟨uid', rest', huids', hslot, hnone⟩ := ht.working hholds
    cases huids.symm.trans huids'
    exact ⟨i, leaves_stopped h huids hslot hnone held, .inl hholds⟩
  · rename_i i outcome uid rest hpoint huids
    have hholds : t.holds? = some i := by simp [holds?, hpoint]
    obtain ⟨uid', rest', huids', hslot, hnone⟩ := ht.working hholds
    cases huids.symm.trans huids'
    exact ⟨i, leaves_opened h ht hholds hslot hnone outcome now hP, .inl hholds⟩

end Reaper.Task
