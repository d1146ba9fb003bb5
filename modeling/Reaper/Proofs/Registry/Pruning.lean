import Reaper.Proofs.Registry.Holdings

/-!
Pruning a registry.

A prune lists the policies with a slot that are not among the living, and then lets go of one after the other. Nothing
is changed about the living (`Sound.leavesAlone_prune`), and a prune after it finds nobody to let go of
(`prune_of_prune`). Only those are reported whose slot held something, but as long as every policy with a slot is in a
state (`Settled`) these are all who were let go of (`Settled.removed_prune`).

  §1 Frames  — what letting go of some policies leaves of the others.
  §2 Slots   — which slots are left, and what becomes of the watches.
  §3 States  — registries in which every policy with a slot is in a state, and the reports about them.
-/

namespace Reaper.Registry

variable {P : Bool → Prop} {r r' : Registry} {uid k : String}

/-! ## §1 Frames -/

/-- Nothing has changed about a policy: it has its slot, in it the same watch, stopped or not, the same limiter with the
same tokens, and the same state. -/
structure LeavesAlone (k : String) (r r' : Registry) : Prop where
  slot : r'.slot? k = r.slot? k
  holding : r'.holding? k = r.holding? k
  handles : r'.handles? k = r.handles? k
  isLive_iff : ∀ w, r'.IsLive k w ↔ r.IsLive k w

theorem LeavesAlone.refl (k : String) (r : Registry) : LeavesAlone k r r := ⟨rfl, rfl, rfl, fun _ => .rfl⟩

theorem LeavesAlone.trans {r'' : Registry} (h : LeavesAlone k r r') (h' : LeavesAlone k r' r'') : LeavesAlone k r r'' where
  slot := h'.slot.trans h.slot
  holding := h'.holding.trans h.holding
  handles := h'.handles.trans h.handles
  isLive_iff w := (h'.isLive_iff w).trans (h.isLive_iff w)

/-- The watches after letting go of a policy that has a slot. -/
theorem getElem?_watches_remove {i : Nat} (hslot : r.slot? uid = some i) (w : Nat) :
    (r.remove uid).2.watches[w]? =
      (r.watches[w]?).map fun watch =>
        if (r.slotAt i).watch = some w then { watch with cancelled := true } else watch := by
  rw [remove_of_slot? hslot, watches_retire, getElem?_watches_stopWatch]

/-- No watch is forgotten, and nothing is changed about one but that it may be stopped. -/
theorem map_watches_remove {α : Type} (f : Watch → α) (hf : ∀ watch, f { watch with cancelled := true } = f watch)
    (r : Registry) (uid : String) (w : Nat) : ((r.remove uid).2.watches[w]?).map f = (r.watches[w]?).map f := by
  cases hslot : r.slot? uid with
  | none => rw [remove_of_none hslot]
  | some i =>
    rw [getElem?_watches_remove hslot]
    cases r.watches[w]? with
    | none => rfl
    | some watch =>
      simp only [Option.map_some, Option.some.injEq]
      split
      · exact hf watch
      · rfl

theorem handlesAt_eq (r : Registry) (i : Nat) :
    r.handlesAt i = (r.slotAt i).watch.bind fun w => (r.slotAt i).limiter.bind fun l =>
      ((r.watches[w]?).map (·.target)).map fun t => ⟨w, t, l⟩ := by
  simp [handlesAt, Option.map_eq_bind, Option.bind_assoc]

/-- Letting go of a policy changes nothing in the slots of others. -/
theorem handlesAt_remove {i j : Nat} (hslot : r.slot? uid = some i) (hij : i ≠ j) :
    (r.remove uid).2.handlesAt j = r.handlesAt j := by
  have hat : (r.remove uid).2.slotAt j = r.slotAt j := by
    rw [remove_of_slot? hslot, slotAt_retire, if_neg fun h => hij h.1, slotAt_stopWatch, if_neg hij]
  simp only [handlesAt_eq, hat, map_watches_remove (·.target) (fun _ => rfl) r uid]

theorem Sound.leavesAlone_remove (h : Sound P r) (hk : k ≠ uid) : LeavesAlone k r (r.remove uid).2 := by
  cases hslot : r.slot? uid with
  | none =>
    rw [remove_of_none hslot]
    exact .refl k r
  | some i =>
    have hindex : (r.remove uid).2.slot? k = r.slot? k := by rw [slot?_remove, if_neg hk]
    refine ⟨hindex, by rw [h.holding?_remove, if_neg hk], ?_, fun w => ?_⟩
    · unfold handles?
      rw [hindex]
      cases hj : r.slot? k with
      | none => rfl
      | some j =>
        have hij : i ≠ j := by
          rintro rfl
          exact hk (h.injective hj hslot)
        exact handlesAt_remove hslot hij
    · unfold IsLive
      rw [getElem?_watches_remove hslot]
      constructor
      · rintro ⟨watch, hwatch, howner, hlive⟩
        obtain ⟨watch', hwatch', rfl⟩ := Option.map_eq_some_iff.mp hwatch
        by_cases hheld : (r.slotAt i).watch = some w
        · rw [if_pos hheld] at hlive
          cases hlive
        · rw [if_neg hheld] at howner hlive
          exact ⟨watch', hwatch', howner, hlive⟩
      · rintro ⟨watch, hwatch, howner, hlive⟩
        -- the watch that is stopped has another owner
        have hother : (r.slotAt i).watch ≠ some w := by
          intro hheld
          obtain ⟨watch', hwatch', hslot', -⟩ := h.holds hheld
          obtain rfl : watch = watch' := Option.some.inj (hwatch.symm.trans hwatch')
          exact hk (howner.symm.trans (h.injective hslot' hslot))
        exact ⟨watch, by rw [hwatch, Option.map_some, if_neg hother], howner, hlive⟩

theorem Sound.leavesAlone_removeAll (h : Sound P r) {uids : List String} (hk : k ∉ uids) :
    LeavesAlone k r (r.removeAll uids).2 := by
  induction uids generalizing r with
  | nil => exact .refl k r
  | cons uid rest ih =>
    obtain ⟨hne, hrest⟩ : k ≠ uid ∧ k ∉ rest := by simpa using hk
    exact (h.leavesAlone_remove hne).trans (ih (h.remove uid) hrest)

/-- A prune changes nothing about the living. -/
theorem Sound.leavesAlone_prune (h : Sound P r) {live : List String} (hk : k ∈ live) :
    LeavesAlone k r (r.prune live).2 :=
  h.leavesAlone_removeAll fun hstale => (mem_stale.mp hstale).2 hk

/-! ## §2 Slots -/

theorem Sound.prune (h : Sound P r) (live : List String) : Sound P (r.prune live).2 := h.removeAll _

/-- After a prune the living have the slots that they had, and nobody else has one. -/
theorem Sound.slot?_prune (h : Sound P r) (live : List String) (k : String) :
    (r.prune live).2.slot? k = if k ∈ live then r.slot? k else none := by
  split
  · rename_i hk
    exact (h.leavesAlone_prune hk).slot
  · rename_i hk
    rw [← holding?_eq_none_iff, h.holding?_prune, if_neg hk]

/-- A second prune finds nobody to let go of. -/
theorem Sound.prune_of_prune (h : Sound P r) (live : List String) :
    (r.prune live).2.prune live = ([], (r.prune live).2) := by
  have hnone : (r.prune live).2.stale live = [] := by
    refine List.eq_nil_iff_forall_not_mem.mpr fun k hk => ?_
    obtain ⟨hslot, hlive⟩ := mem_stale.mp hk
    rw [h.slot?_prune, if_neg hlive] at hslot
    exact hslot rfl
  rw [Registry.prune, hnone]
  rfl

/-- No watch is forgotten, and none changes its owner. -/
theorem owner_removeAll (r : Registry) (uids : List String) (w : Nat) :
    ((r.removeAll uids).2.watches[w]?).map (·.owner) = (r.watches[w]?).map (·.owner) :=
  removeAll_induction (motive := fun r' => (r'.watches[w]?).map (·.owner) = (r.watches[w]?).map (·.owner))
    (fun r' uid h => (map_watches_remove (·.owner) (fun _ => rfl) r' uid w).trans h) rfl uids

/-- A prune stops the watches of all who are not among the living. -/
theorem Sound.cancelled_prune (h : Sound P r) {live : List String} (hk : k ∉ live) {w : Nat}
    (hheld : r.held? k = some w) : ∃ watch, (r.prune live).2.watches[w]? = some watch ∧ watch.cancelled = true := by
  obtain ⟨i, hslot, hi⟩ := held?_eq_some_iff.mp hheld
  obtain ⟨before, hbefore, hslot', -⟩ := h.holds hi
  have howner : before.owner = k := h.injective hslot' hslot
  have hsame := owner_removeAll r (r.stale live) w
  rw [hbefore, Option.map_some, howner] at hsame
  obtain ⟨watch, hwatch, hown⟩ := Option.map_eq_some_iff.mp hsame
  refine ⟨watch, hwatch, eq_true_of_ne_false fun hlive => ?_⟩
  have hnone : (r.prune live).2.slot? k = none := by rw [h.slot?_prune, if_neg hk]
  exact (h.prune live).not_isLive_of_none hnone w ⟨watch, hwatch, hown, hlive⟩

/-! ## §3 States -/

/-- The registry is sound, and every policy with a slot is in a state. The one that is busy, if there is one, need not
be in a state yet. -/
structure Settled (busy : Option String) (r : Registry) : Prop where
  sound : Sound (fun _ => True) r
  tracked : ∀ {k i}, r.slot? k = some i → busy ≠ some k → (r.slotAt i).state ≠ .notTracked

variable {busy : Option String}

theorem settled_empty : Settled busy {} := ⟨sound_empty, nofun⟩

/-- Somebody becomes busy. -/
theorem Settled.begin (h : Settled none r) (busy : Option String) : Settled busy r :=
  ⟨h.sound, fun hslot _ => h.tracked hslot nofun⟩

/-- Steps that enter no state, and make no slot but for the policy that is busy. -/
theorem Settled.of_state (h : Settled busy r) (hsound : Sound (fun _ => True) r')
    (hslot : ∀ {k i}, r'.slot? k = some i → busy ≠ some k → r.slot? k = some i)
    (hstate : ∀ i, (r'.slotAt i).state = (r.slotAt i).state) : Settled busy r' := by
  refine ⟨hsound, fun {k i} hk hbusy => ?_⟩
  rw [hstate]
  exact h.tracked (hslot hk hbusy) hbusy

theorem Settled.remove (h : Settled busy r) (uid : String) : Settled busy (r.remove uid).2 := by
  refine ⟨h.sound.remove uid, fun {k j} hk hbusy => ?_⟩
  rw [slot?_remove] at hk
  split at hk
  · cases hk
  · rename_i hne
    have hheld := (h.sound.leavesAlone_remove hne).holding
    rw [holding?_of_slot? (by rw [slot?_remove, if_neg hne, hk]), holding?_of_slot? hk, Option.some.injEq] at hheld
    rw [show ((r.remove uid).2.slotAt j).state = (r.slotAt j).state from congrArg Holding.state hheld]
    exact h.tracked hk hbusy

theorem Settled.removeAll (h : Settled busy r) (uids : List String) : Settled busy (r.removeAll uids).2 :=
  removeAll_induction (fun _ uid h => h.remove uid) h uids

/-- All who are let go of are reported, if each has a slot and none is named twice. -/
theorem Settled.removed_removeAll (h : Settled none r) {uids : List String} (hnodup : uids.Nodup)
    (hslots : ∀ uid ∈ uids, r.slot? uid ≠ none) : (r.removeAll uids).1 = uids := by
  induction uids generalizing r with
  | nil => rfl
  | cons uid rest ih =>
    obtain ⟨hnot, hrest⟩ := List.nodup_cons.mp hnodup
    obtain ⟨i, hi⟩ := Option.ne_none_iff_exists'.mp (hslots uid List.mem_cons_self)
    have hheld : (r.remove uid).1 = true := by
      rw [remove_of_slot? hi]
      simp [Slot.isHolding, h.tracked hi nofun]
    have hothers : ∀ k ∈ rest, (r.remove uid).2.slot? k ≠ none := by
      intro k hk
      have hne : k ≠ uid := fun heq => hnot (heq ▸ hk)
      rw [slot?_remove, if_neg hne]
      exact hslots k (List.mem_cons_of_mem _ hk)
    show (if (r.remove uid).1 then uid :: ((r.remove uid).2.removeAll rest).1 else _) = _
    rw [hheld, if_pos rfl, ih (h.remove uid) hrest hothers]

theorem nodup_stale (r : Registry) (live : List String) : (r.stale live).Nodup := r.index.nodup_keys.filter _

/-- A prune reports all whom it lets go of. -/
theorem Settled.removed_prune (h : Settled none r) (live : List String) : (r.prune live).1 = r.stale live :=
  h.removed_removeAll (nodup_stale r live) fun _ huid => (mem_stale.mp huid).1

theorem Settled.slotFor (h : Settled (some uid) r) : Settled (some uid) (r.slotFor uid).2 := by
  refine h.of_state (h.sound.slotFor uid) (fun {k i} hk hbusy => ?_) fun i => by rw [slotAt_slotFor]
  rwa [slot?_slotFor, if_neg fun heq => hbusy (congrArg some heq)] at hk

theorem Settled.finishEnsure (h : Settled busy r) (i : Nat) (rate : Binary64) (now : Duration)
    (outcome : EnsureOutcome) : Settled busy (r.finishEnsure i rate now outcome).2 := by
  have hsame := SameWatches.finishEnsure r i rate now outcome
  refine h.of_state (h.sound.sameWatches hsame) (fun hk _ => (hsame.slot? _).symm.trans hk) fun j => ?_
  have hset : ((r.setRate i rate now).2.slotAt j).state = (r.slotAt j).state := by
    unfold setRate
    split
    · rfl
    · split
      · rfl
      · refine (congrArg Slot.state (slotAt_modifySlot r i j ({ · with limiter := some r.limiters.size }))).trans ?_
        split <;> rfl
  rw [← hset]
  unfold Registry.finishEnsure
  rcases r.setRate i rate now with ⟨_ | _, r'⟩ <;> rfl

/-- Having a watch for a policy, or failing to. -/
theorem Settled.ensure {σ : Type} (h : Settled (some uid) r)
    (openWatch : WatchTarget → σ → Except WatchError Bool × σ) (target : WatchTarget) (rate : Binary64) (now : Duration)
    (world : σ) : Settled (some uid) (r.ensure openWatch uid target rate now world).1.2 := by
  have hfor := h.slotFor
  have hslot : (r.slotFor uid).2.slot? uid = some (r.slotFor uid).1 := by rw [slot?_slotFor, if_pos rfl]
  unfold Registry.ensure
  generalize r.slotFor uid = made at hfor hslot ⊢
  obtain ⟨i, r₀⟩ := made
  dsimp only at hfor hslot ⊢
  split
  · exact hfor.finishEnsure i rate now .reused
  · rename_i outcome _
    have hcount := SameWatches.countAttempt (r₀.stopWatch i)
    have hstop : Settled (some uid) (r₀.stopWatch i).countAttempt := by
      refine hfor.of_state ((hfor.sound.stopWatch i).sameWatches hcount) (fun hk _ => ?_) fun j => ?_
      · rwa [hcount.slot?, slot?_stopWatch] at hk
      · refine (congrArg Slot.state (slotAt_stopWatch r₀ i j)).trans ?_
        split <;> rfl
    have hslot₁ : (r₀.stopWatch i).countAttempt.slot? uid = some i := (slot?_stopWatch ..).trans hslot
    have hnone : ((r₀.stopWatch i).countAttempt.slotAt i).watch = none := r₀.watch_stopWatch i
    split
    · exact hstop
    · rename_i cancelled _ _
      refine Settled.finishEnsure ?_ i rate now outcome
      refine hstop.of_state (hstop.sound.addWatch hslot₁ hnone target trivial) (fun hk _ => hk) fun j => ?_
      rw [slotAt_addWatch]
      split <;> rfl

/-- The busy policy enters a state. -/
theorem Settled.setState (h : Settled (some uid) r) {s : PolicyState} (hs : s ≠ .notTracked) :
    Settled none (r.setState uid s) := by
  have hfor := h.slotFor
  have hslot : (r.slotFor uid).2.slot? uid = some (r.slotFor uid).1 := by rw [slot?_slotFor, if_pos rfl]
  unfold Registry.setState
  rw [if_neg hs]
  generalize r.slotFor uid = made at hfor hslot ⊢
  obtain ⟨i, r₀⟩ := made
  dsimp only at hfor hslot ⊢
  refine ⟨hfor.sound.sameWatches (.modifySlot r₀ i _ (fun _ => rfl) fun _ => rfl), fun {k j} hk _ => ?_⟩
  rw [slotAt_modifySlot]
  split
  · exact hs
  · rename_i hij
    refine hfor.tracked hk fun heq => ?_
    obtain rfl := Option.some.inj heq
    obtain rfl := Option.some.inj (hslot.symm.trans hk)
    exact hij ⟨rfl, hfor.sound.lt_size hslot⟩

/-- A pass leaves another bucket in the place of a limiter. -/
theorem Settled.setLimiter (h : Settled busy r) (l : Nat) (b : Bucket) : Settled busy (r.setLimiter l b) :=
  h.of_state (h.sound.sameWatches ⟨rfl, rfl, fun _ => rfl, fun _ => rfl, rfl⟩) (fun hk _ => hk) fun _ => rfl

end Reaper.Registry
