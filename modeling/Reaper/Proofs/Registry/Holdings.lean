import Reaper.Proofs.Bucket.Rate
import Reaper.Proofs.Registry.Sound

/-!
What a registry holds for each policy.

For a policy with a slot a registry holds a watch, a limiter and a state (`holding?`). The numbers by which slots point
to watches and limiters are a matter of the registry: as long as it is kept (`Kept`), what is done for one policy
changes what is held for that policy alone.

  §1 Holdings   — what is held in a slot, and what each step changes about it.
  §2 Limiters   — no two slots share a limiter, and every limiter is at a whole rate.
  §3 Operations — what each operation leaves for the policies.
-/

namespace Reaper

/-- What is held for a policy. -/
structure Holding where
  watch : Option Watch := none
  limiter : Option Bucket := none
  state : PolicyState := .notTracked

namespace Registry

variable {r r' : Registry} {uid : String} {i : Nat}

/-! ## §1 Holdings -/

@[simp] theorem limiters_slotFor (r : Registry) (uid : String) : (r.slotFor uid).2.limiters = r.limiters := by
  unfold slotFor
  split <;> rfl

@[simp] theorem limiters_stopWatch (r : Registry) (i : Nat) : (r.stopWatch i).limiters = r.limiters := by
  unfold stopWatch
  split <;> rfl

@[simp] theorem limiters_retire (r : Registry) (uid : String) (i : Nat) : (r.retire uid i).limiters = r.limiters := by
  unfold retire
  dsimp only
  split <;> rfl

def limiterOf? (r : Registry) (i : Nat) : Option Bucket := (r.slotAt i).limiter.bind (r.limiters[·]?)

def holdingAt (r : Registry) (i : Nat) : Holding := ⟨r.watchOf? i, r.limiterOf? i, (r.slotAt i).state⟩

def holding? (r : Registry) (uid : String) : Option Holding := (r.slot? uid).map r.holdingAt

theorem state_eq (r : Registry) (uid : String) : r.state uid = ((r.holding? uid).map (·.state)).getD .notTracked := by
  unfold state holding?
  cases r.slot? uid <;> rfl

theorem holding?_eq_none_iff : r.holding? uid = none ↔ r.slot? uid = none := Option.map_eq_none_iff

theorem holding?_of_slot? (h : r.slot? uid = some i) : r.holding? uid = some (r.holdingAt i) := by
  simp [holding?, h]

/-- Making a slot changes no slot: one that is not there reads like an empty one. -/
@[simp] theorem holdingAt_slotFor (r : Registry) (uid : String) (j : Nat) :
    (r.slotFor uid).2.holdingAt j = r.holdingAt j := by
  simp [holdingAt, watchOf?, limiterOf?]

theorem holdingAt_of_size_le (h : r.slots.size ≤ i) : r.holdingAt i = {} := by
  simp [holdingAt, watchOf?, limiterOf?, r.slotAt_of_size_le h]

/-- Making a slot: a policy that had none has an empty one. -/
theorem holding?_slotFor (r : Registry) (uid k : String) :
    (r.slotFor uid).2.holding? k = if uid = k then some ((r.holding? uid).getD {}) else r.holding? k := by
  unfold holding?
  rw [slot?_slotFor]
  split
  · rw [Option.map_some, holdingAt_slotFor]
    obtain ⟨i, hi, heq⟩ | ⟨hnone, hfst, -⟩ := r.slotFor_cases uid
    · simp [heq, hi]
    · rw [hfst, hnone, holdingAt_of_size_le (Nat.le_refl _)]
      rfl
  · cases r.slot? k <;> simp

/-- Stopping the watch of a slot takes it out of that slot alone. -/
theorem holdingAt_stopWatch {P : Bool → Prop} (h : Sound P r) (i j : Nat) :
    (r.stopWatch i).holdingAt j = if i = j then { r.holdingAt i with watch := none } else r.holdingAt j := by
  split
  · subst i
    simp [holdingAt, watchOf?, limiterOf?, slotAt_stopWatch]
  · rename_i hij
    have hwatch : (r.stopWatch i).watchOf? j = r.watchOf? j := by
      unfold watchOf?
      rw [slotAt_stopWatch, if_neg hij]
      cases hw : (r.slotAt j).watch with
      | none => rfl
      | some w =>
        -- the watch that is stopped is another one
        have hne : (r.slotAt i).watch ≠ some w := fun hi => hij (h.slot_unique hi hw)
        simp [getElem?_watches_stopWatch, hne]
    simp [holdingAt, limiterOf?, slotAt_stopWatch, hij, hwatch]

/-- Putting a new watch into a slot. -/
theorem holdingAt_addWatch {P : Bool → Prop} (h : Sound P r) (hi : i < r.slots.size) (owner : String)
    (target : WatchTarget) (cancelled : Bool) (j : Nat) :
    (r.addWatch i owner target cancelled).holdingAt j =
      if i = j then { r.holdingAt i with watch := some { owner, target, cancelled } } else r.holdingAt j := by
  have hlimiters : (r.addWatch i owner target cancelled).limiters = r.limiters := rfl
  have hwatches : (r.addWatch i owner target cancelled).watches = r.watches.push { owner, target, cancelled } := rfl
  split
  · subst i
    simp [holdingAt, watchOf?, limiterOf?, slotAt_addWatch, hi, hlimiters, hwatches]
  · rename_i hij
    have hwatch : (r.addWatch i owner target cancelled).watchOf? j = r.watchOf? j := by
      unfold watchOf?
      rw [slotAt_addWatch, if_neg fun heq => hij heq.1]
      cases hw : (r.slotAt j).watch with
      | none => rfl
      | some w =>
        obtain ⟨watch, hwatch, -⟩ := h.holds hw
        obtain ⟨hlt, -⟩ := Array.getElem?_eq_some_iff.mp hwatch
        simp [hwatches, Array.getElem?_push, Nat.ne_of_lt hlt]
    simp [holdingAt, limiterOf?, slotAt_addWatch, hij, hlimiters, hwatch]

/-- Entering a state. -/
theorem holdingAt_setState (hi : i < r.slots.size) (s : PolicyState) (j : Nat) :
    (r.modifySlot i ({ · with state := s })).holdingAt j =
      if i = j then { r.holdingAt i with state := s } else r.holdingAt j := by
  have hwatches : (r.modifySlot i ({ · with state := s })).watches = r.watches := rfl
  have hlimiters : (r.modifySlot i ({ · with state := s })).limiters = r.limiters := rfl
  split
  · subst i
    simp [holdingAt, watchOf?, limiterOf?, slotAt_modifySlot, hi, hwatches, hlimiters]
  · rename_i hij
    simp [holdingAt, watchOf?, limiterOf?, slotAt_modifySlot, hij, hwatches, hlimiters]

/-- Giving a slot up changes nothing about the others. -/
theorem holdingAt_retire {j : Nat} (hij : i ≠ j) (uid : String) : (r.retire uid i).holdingAt j = r.holdingAt j := by
  simp [holdingAt, watchOf?, limiterOf?, slotAt_retire, hij]

/-! ## §2 Limiters -/

/-- Puts another bucket into the place of a limiter. -/
def setLimiter (r : Registry) (l : Nat) (b : Bucket) : Registry :=
  { r with limiters := r.limiters.setIfInBounds l b }

/-- Puts a new limiter into a slot. -/
def addLimiter (r : Registry) (i : Nat) (b : Bucket) : Registry :=
  { r.modifySlot i ({ · with limiter := some r.limiters.size }) with limiters := r.limiters.push b }

theorem slotAt_addLimiter (r : Registry) (i j : Nat) (b : Bucket) :
    (r.addLimiter i b).slotAt j =
      if i = j ∧ j < r.slots.size then { r.slotAt j with limiter := some r.limiters.size } else r.slotAt j :=
  r.slotAt_modifySlot i j _

section Limiters

variable {limiters : Array Bucket} {l l' : Nat} {b b' : Bucket}

/-- A limiter after one was replaced is the new one, or was there before. -/
theorem cases_of_getElem?_set (h : (limiters.setIfInBounds l b)[l']? = some b') :
    b' = b ∧ l < limiters.size ∨ limiters[l']? = some b' := by
  rw [Array.getElem?_setIfInBounds] at h
  split at h
  · subst l'
    split at h
    · exact .inl ⟨(Option.some.inj h).symm, ‹_›⟩
    · cases h
  · exact .inr h

/-- A limiter after one was added is the new one, or was there before. -/
theorem cases_of_getElem?_push (h : (limiters.push b)[l']? = some b') : b' = b ∨ limiters[l']? = some b' := by
  rw [Array.getElem?_push] at h
  split at h
  · exact .inl (Option.some.inj h).symm
  · exact .inr h

/-- A limiter after one was changed is one that was there before, changed or not. -/
theorem exists_of_getElem?_modify {f : Bucket → Bucket} (h : (limiters.modify l f)[l']? = some b) :
    ∃ b', limiters[l']? = some b' ∧ (b = f b' ∨ b = b') := by
  rw [Array.getElem?_modify] at h
  split at h
  · obtain ⟨b', hb', rfl⟩ := Option.map_eq_some_iff.mp h
    exact ⟨b', hb', .inl rfl⟩
  · exact ⟨b, h, .inr rfl⟩

end Limiters

/-- No two slots share a limiter, and every limiter is at a whole rate. -/
structure Metered (r : Registry) : Prop where
  lt_size : ∀ {i l : Nat}, (r.slotAt i).limiter = some l → l < r.limiters.size
  injective : ∀ {i j l : Nat}, (r.slotAt i).limiter = some l → (r.slotAt j).limiter = some l → i = j
  whole : ∀ {l : Nat} {b : Bucket}, r.limiters[l]? = some b → ∃ n : Nat, n < 2 ^ 53 ∧ b.rate = n

theorem Metered.of_same (h : Metered r) (hslots : ∀ {j l : Nat}, (r'.slotAt j).limiter = some l →
    (r.slotAt j).limiter = some l) (hlimiters : r'.limiters = r.limiters) : Metered r' where
  lt_size hl := hlimiters ▸ h.lt_size (hslots hl)
  injective hl hl' := h.injective (hslots hl) (hslots hl')
  whole hb := h.whole (hlimiters ▸ hb)

theorem Metered.stopWatch (h : Metered r) (i : Nat) : Metered (r.stopWatch i) := by
  refine h.of_same (fun {j l} hl => ?_) (limiters_stopWatch r i)
  rw [slotAt_stopWatch] at hl
  split at hl <;> exact hl

theorem Metered.setLimiter (h : Metered r) (l : Nat) {n : Nat} {b : Bucket} (hn : n < 2 ^ 53) (hb : b.rate = n) :
    Metered (r.setLimiter l b) where
  lt_size hl := Nat.lt_of_lt_of_eq (h.lt_size hl) Array.size_setIfInBounds.symm
  injective hl hl' := h.injective hl hl'
  whole := by
    intro l' b' hb'
    obtain ⟨rfl, -⟩ | hold := cases_of_getElem?_set hb'
    · exact ⟨n, hn, hb⟩
    · exact h.whole hold

/-- Putting another bucket into the place of the limiter of a slot changes nothing about the other slots. -/
theorem holdingAt_setLimiter (h : Metered r) {l : Nat} (hl : (r.slotAt i).limiter = some l) (b : Bucket) (j : Nat) :
    (r.setLimiter l b).holdingAt j = if i = j then { r.holdingAt i with limiter := some b } else r.holdingAt j := by
  have hslot : (r.setLimiter l b).slotAt j = r.slotAt j := rfl
  have hwatch : (r.setLimiter l b).watchOf? j = r.watchOf? j := rfl
  have hlimiters : (r.setLimiter l b).limiters = r.limiters.setIfInBounds l b := rfl
  split
  · subst i
    simp [holdingAt, limiterOf?, hslot, hwatch, hlimiters, hl, h.lt_size hl]
  · rename_i hij
    have hlimiter : (r.setLimiter l b).limiterOf? j = r.limiterOf? j := by
      unfold limiterOf?
      rw [hslot, hlimiters]
      cases hl' : (r.slotAt j).limiter with
      | none => rfl
      | some l' =>
        have hne : l ≠ l' := by
          rintro rfl
          exact hij (h.injective hl hl')
        simp [Array.getElem?_setIfInBounds, hne]
    simp [holdingAt, hslot, hwatch, hlimiter]

/-- A slot without a limiter gets a new one. -/
theorem Metered.addLimiter (h : Metered r) (i : Nat) {n : Nat} {b : Bucket} (hn : n < 2 ^ 53) (hb : b.rate = n) :
    Metered (r.addLimiter i b) := by
  have hlimiters : (r.addLimiter i b).limiters = r.limiters.push b := rfl
  -- the limiter of a slot is the new one or one that the slot had before
  have hslot {j l : Nat} (hl : ((r.addLimiter i b).slotAt j).limiter = some l) :
      j = i ∧ l = r.limiters.size ∨ (r.slotAt j).limiter = some l ∧ l < r.limiters.size := by
    rw [slotAt_addLimiter] at hl
    split at hl
    · rename_i hij
      exact .inl ⟨hij.1.symm, (Option.some.inj hl).symm⟩
    · exact .inr ⟨hl, h.lt_size hl⟩
  exact
    { lt_size := by
        intro j l hl
        rw [hlimiters, Array.size_push]
        rcases hslot hl with ⟨-, rfl⟩ | ⟨-, hlt⟩ <;> omega
      injective := by
        intro j k l hl hl'
        rcases hslot hl with ⟨rfl, rfl⟩ | ⟨hl, hlt⟩ <;> rcases hslot hl' with ⟨rfl, hl'⟩ | ⟨hl', hlt'⟩
        · rfl
        · exact absurd hlt' (Nat.lt_irrefl _)
        · omega
        · exact h.injective hl hl'
      whole := by
        intro l b' hb'
        obtain rfl | hold := cases_of_getElem?_push (hlimiters ▸ hb')
        · exact ⟨n, hn, hb⟩
        · exact h.whole hold }

theorem holdingAt_addLimiter (h : Metered r) (hi : i < r.slots.size) (b : Bucket) (j : Nat) :
    (r.addLimiter i b).holdingAt j = if i = j then { r.holdingAt i with limiter := some b } else r.holdingAt j := by
  have hwatches : (r.addLimiter i b).watches = r.watches := rfl
  have hlimiters : (r.addLimiter i b).limiters = r.limiters.push b := rfl
  split
  · subst i
    simp [holdingAt, watchOf?, limiterOf?, slotAt_addLimiter, hi, hwatches, hlimiters]
  · rename_i hij
    have hlimiter : (r.addLimiter i b).limiterOf? j = r.limiterOf? j := by
      unfold limiterOf?
      rw [slotAt_addLimiter, if_neg fun heq => hij heq.1, hlimiters]
      cases hl : (r.slotAt j).limiter with
      | none => rfl
      | some l => simp [Array.getElem?_push, Nat.ne_of_lt (h.lt_size hl)]
    simp [holdingAt, watchOf?, slotAt_addLimiter, hij, hwatches, hlimiter]

/-- Bringing the limiter of a slot to a whole rate. -/
theorem finishEnsure_spec (h : Metered r) (hi : i < r.slots.size) {n : Nat} (h0 : 0 < n) (hn : n < 2 ^ 53)
    (now : Duration) (outcome : EnsureOutcome) :
    ∃ (r' : Registry) (b : Bucket), r.finishEnsure i (.ofInt n) now outcome = (.ok outcome, r') ∧ Metered r' ∧
      b.rate = n ∧ ∀ j, r'.holdingAt j = if i = j then { r.holdingAt i with limiter := some b } else r.holdingAt j := by
  unfold finishEnsure setRate
  rw [Bucket.rate?_ofInt h0 hn]
  cases hl : (r.slotAt i).limiter with
  | none =>
    exact ⟨r.addLimiter i (.full n now), .full n now, rfl, h.addLimiter i hn rfl, rfl, holdingAt_addLimiter h hi _⟩
  | some l =>
    obtain ⟨b, hb⟩ : ∃ b, r.limiters[l]? = some b := ⟨_, Array.getElem?_eq_getElem (h.lt_size hl)⟩
    obtain ⟨m, hm, hrate⟩ := h.whole hb
    have hset := Bucket.rate_setRate hrate hm hn now
    have hmodify : r.limiters.modify l (Bucket.setRate Rounding.nearest now n) =
        r.limiters.setIfInBounds l (b.setRate Rounding.nearest now n) := by
      apply Array.ext_getElem?
      intro k
      rw [Array.getElem?_modify, Array.getElem?_setIfInBounds]
      split
      · subst l
        rw [hb, if_pos (h.lt_size hl)]
        rfl
      · rfl
    dsimp only
    rw [hmodify]
    exact ⟨r.setLimiter l _, _, rfl, h.setLimiter l hn hset, hset, holdingAt_setLimiter h hl _⟩

/-! ## §3 Operations -/

/-- A registry on which operations have been run one after the other, and no watch is stopped but by them. -/
structure Kept (r : Registry) : Prop where
  sound : Sound (· = false) r
  metered : Metered r
  /-- who has a watch has a limiter -/
  fitted : ∀ {i}, (r.holdingAt i).watch.isSome = true → (r.holdingAt i).limiter.isSome = true

/-- What was done has changed nothing for other policies. -/
structure ChangesOnly (uid : String) (r r' : Registry) : Prop where
  kept : Kept r'
  others : ∀ {k}, k ≠ uid → r'.holding? k = r.holding? k

theorem ChangesOnly.refl (h : Kept r) (uid : String) : ChangesOnly uid r r := ⟨h, fun _ => rfl⟩

theorem ChangesOnly.trans {r'' : Registry} (h : ChangesOnly uid r r') (h' : ChangesOnly uid r' r'') :
    ChangesOnly uid r r'' :=
  ⟨h'.kept, fun hk => (h'.others hk).trans (h.others hk)⟩

theorem kept_empty : Kept {} where
  sound := sound_empty
  metered := ⟨nofun, nofun, fun h => by simp at h⟩
  fitted := nofun

/-- What is done in the slot of a policy changes nothing for the others. -/
theorem holding?_of_ne {P : Bool → Prop} (h : Sound P r) (hslot : r.slot? uid = some i)
    (hindex : ∀ k, k ≠ uid → r'.slot? k = r.slot? k) (hat : ∀ j, i ≠ j → r'.holdingAt j = r.holdingAt j) {k : String}
    (hk : k ≠ uid) : r'.holding? k = r.holding? k := by
  unfold holding?
  rw [hindex k hk]
  cases hj : r.slot? k with
  | none => rfl
  | some j =>
    have hij : i ≠ j := by
      rintro rfl
      exact hk (h.injective hj hslot)
    rw [Option.map_some, hat j hij, Option.map_some]

/-- What changes in the slot of a policy changes for this policy alone. -/
theorem changesOnly_of_holdingAt {P : Bool → Prop} (h : Sound P r) (hslot : r.slot? uid = some i)
    (hsound : Sound (· = false) r') (hmetered : Metered r') (hindex : ∀ k, r'.slot? k = r.slot? k) {held : Holding}
    (hat : ∀ j, r'.holdingAt j = if i = j then held else r.holdingAt j)
    (hfitted : held.watch.isSome = true → held.limiter.isSome = true)
    (hothers : ∀ {j}, i ≠ j → (r.holdingAt j).watch.isSome = true → (r.holdingAt j).limiter.isSome = true) :
    ChangesOnly uid r r' ∧ r'.holding? uid = some held := by
  have hkept : Kept r' :=
    { sound := hsound
      metered := hmetered
      fitted := by
        intro j
        rw [hat]
        split
        · exact hfitted
        · rename_i hij
          exact hothers hij }
  refine ⟨⟨hkept, holding?_of_ne h hslot (fun k _ => hindex k) fun j hij => ?_⟩, ?_⟩
  · rw [hat, if_neg hij]
  · rw [holding?_of_slot? ((hindex uid).trans hslot), hat, if_pos rfl]

/-- Looking a policy up, and making a slot for it if there is none. -/
theorem Kept.slotFor (h : Kept r) (uid : String) : ChangesOnly uid r (r.slotFor uid).2 := by
  have hmetered : Metered (r.slotFor uid).2 := h.metered.of_same (fun hl => by simpa using hl) (limiters_slotFor ..)
  refine ⟨⟨h.sound.slotFor uid, hmetered, ?_⟩, fun hk => ?_⟩
  · intro i
    rw [holdingAt_slotFor]
    exact h.fitted
  · rw [holding?_slotFor, if_neg (Ne.symm hk)]

/-- Entering a state. -/
theorem setState_spec (h : Kept r) (uid : String) {s : PolicyState} (hs : s ≠ .notTracked) :
    ChangesOnly uid r (r.setState uid s) ∧
      (r.setState uid s).holding? uid = some { (r.holding? uid).getD {} with state := s } := by
  have hfor := h.slotFor uid
  have hslot : (r.slotFor uid).2.slot? uid = some (r.slotFor uid).1 := by rw [slot?_slotFor, if_pos rfl]
  have hholding : (r.slotFor uid).2.holding? uid = some ((r.holding? uid).getD {}) := by
    rw [holding?_slotFor, if_pos rfl]
  unfold setState
  rw [if_neg hs]
  generalize r.slotFor uid = made at hfor hslot hholding ⊢
  obtain ⟨i, r₀⟩ := made
  dsimp only at hfor hslot hholding ⊢
  have hmetered : Metered (r₀.modifySlot i ({ · with state := s })) := by
    refine hfor.kept.metered.of_same (fun {j l} hl => ?_) rfl
    rw [slotAt_modifySlot] at hl
    split at hl <;> exact hl
  have hsound : Sound (· = false) (r₀.modifySlot i ({ · with state := s })) :=
    hfor.kept.sound.sameWatches (.modifySlot r₀ i _ (fun _ => rfl) fun _ => rfl)
  obtain ⟨hchanges, hheld⟩ := changesOnly_of_holdingAt hfor.kept.sound hslot hsound hmetered (fun _ => rfl)
    (holdingAt_setState (hfor.kept.sound.lt_size hslot) s) hfor.kept.fitted fun _ => hfor.kept.fitted
  rw [holding?_of_slot? hslot] at hholding
  exact ⟨hfor.trans hchanges, Option.some.inj hholding ▸ hheld⟩

/-- Stopping the watch of a policy. -/
theorem Kept.stopWatch (h : Kept r) (hslot : r.slot? uid = some i) : ChangesOnly uid r (r.stopWatch i) :=
  (changesOnly_of_holdingAt h.sound hslot (h.sound.stopWatch i) (h.metered.stopWatch i) (slot?_stopWatch r i)
    (holdingAt_stopWatch h.sound i) (fun hwatch => by cases hwatch) fun _ => h.fitted).1

/-- Giving up the slot of a policy, which has no watch any more. -/
theorem Kept.retire (h : Kept r) (hslot : r.slot? uid = some i) (hnone : (r.slotAt i).watch = none) :
    ChangesOnly uid r (r.retire uid i) := by
  have hmetered : Metered (r.retire uid i) := by
    refine h.metered.of_same (fun {j l} hl => ?_) (limiters_retire ..)
    rw [slotAt_retire] at hl
    split at hl
    · cases hl
    · exact hl
  refine ⟨⟨h.sound.retire hslot hnone, hmetered, ?_⟩, ?_⟩
  · intro j hwatch
    by_cases hij : i = j
    · subst i
      simp [holdingAt, watchOf?, slotAt_retire, apply_ite Slot.watch, hnone] at hwatch
    · rw [holdingAt_retire hij] at hwatch ⊢
      exact h.fitted hwatch
  · refine holding?_of_ne h.sound hslot (fun k hk => ?_) fun j hij => holdingAt_retire hij uid
    rw [slot?_retire _ hslot, if_neg hk]

/-- Letting go of a policy. -/
theorem Kept.remove (h : Kept r) (uid : String) : Kept (r.remove uid).2 := by
  cases hslot : r.slot? uid with
  | none =>
    rw [remove_of_none hslot]
    exact h
  | some i =>
    have hstop := h.stopWatch hslot
    have hslot' : (r.stopWatch i).slot? uid = some i := (slot?_stopWatch ..).trans hslot
    rw [remove_of_slot? hslot]
    exact (hstop.kept.retire hslot' (r.watch_stopWatch i)).kept

theorem Sound.holding?_remove {P : Bool → Prop} (h : Sound P r) (uid k : String) :
    (r.remove uid).2.holding? k = if k = uid then none else r.holding? k := by
  by_cases hk : k = uid
  · rw [if_pos hk]
    exact holding?_eq_none_iff.mpr (by rw [slot?_remove, if_pos hk])
  rw [if_neg hk]
  cases hslot : r.slot? uid with
  | none => rw [remove_of_none hslot]
  | some i =>
    refine holding?_of_ne h hslot (fun k' hk' => ?_) (fun j hij => ?_) hk
    · rw [slot?_remove, if_neg hk']
    · rw [remove_of_slot? hslot]
      exact (holdingAt_retire hij uid).trans ((holdingAt_stopWatch h i j).trans (if_neg hij))

theorem Kept.removeAll (h : Kept r) (uids : List String) : Kept (r.removeAll uids).2 :=
  removeAll_induction (fun _ uid h => h.remove uid) h uids

theorem Sound.holding?_removeAll {P : Bool → Prop} (h : Sound P r) (uids : List String) (k : String) :
    (r.removeAll uids).2.holding? k = if k ∈ uids then none else r.holding? k := by
  induction uids generalizing r with
  | nil => simp [Registry.removeAll]
  | cons uid rest ih =>
    show ((r.remove uid).2.removeAll rest).2.holding? k = _
    rw [ih (h.remove uid), h.holding?_remove]
    by_cases hk : k = uid <;> by_cases hmem : k ∈ rest <;> simp [hk, hmem]

/-- Those that are let go of when all but the living are. -/
theorem mem_stale {live : List String} {k : String} : k ∈ r.stale live ↔ r.slot? k ≠ none ∧ k ∉ live := by
  unfold stale slot?
  rw [List.mem_filter, ne_eq, Dictionary.get?_eq_none_iff, Decidable.not_not]
  simp

/-- Letting go of all that are not among the living. -/
theorem Sound.holding?_prune {P : Bool → Prop} (h : Sound P r) (live : List String) (k : String) :
    (r.prune live).2.holding? k = if k ∈ live then r.holding? k else none := by
  unfold prune
  rw [h.holding?_removeAll, if_congr mem_stale rfl rfl]
  by_cases hlive : k ∈ live
  · simp [hlive]
  · cases hslot : r.slot? k with
    | none => simp [hlive, holding?_eq_none_iff.mpr hslot]
    | some i => simp [hlive]

/-- The last part of having a watch, when the slot of the policy has it. -/
theorem finishEnsure_changes (hsound : Sound (· = false) r) (hmetered : Metered r)
    (hfitted : ∀ {j}, i ≠ j → (r.holdingAt j).watch.isSome = true → (r.holdingAt j).limiter.isSome = true)
    (hslot : r.slot? uid = some i) {w : Watch} (hwatch : r.watchOf? i = some w) {n : Nat} (h0 : 0 < n) (hn : n < 2 ^ 53)
    (now : Duration) (outcome : EnsureOutcome) :
    ∃ (r' : Registry) (b : Bucket) (s : PolicyState), r.finishEnsure i (.ofInt n) now outcome = (.ok outcome, r') ∧
      ChangesOnly uid r r' ∧ b.rate = n ∧ r'.holding? uid = some ⟨some w, some b, s⟩ := by
  obtain ⟨r', b, hfinish, hmetered', hrate, hat⟩ := finishEnsure_spec hmetered (hsound.lt_size hslot) h0 hn now outcome
  have hsame : SameWatches r r' := by
    have := SameWatches.finishEnsure r i (.ofInt n) now outcome
    rwa [hfinish] at this
  obtain ⟨hchanges, hheld⟩ := changesOnly_of_holdingAt hsound hslot (hsound.sameWatches hsame) hmetered' hsame.slot? hat
    (fun _ => rfl) hfitted
  refine ⟨r', b, (r.slotAt i).state, hfinish, hchanges, hrate, ?_⟩
  rw [hheld]
  simp [holdingAt, hwatch]

/-- Having a watch that has just been opened. -/
theorem addWatch_changes (h : Kept r) (hslot : r.slot? uid = some i) (hnone : (r.slotAt i).watch = none)
    (target : WatchTarget) {n : Nat} (h0 : 0 < n) (hn : n < 2 ^ 53) (now : Duration) (outcome : EnsureOutcome) :
    ∃ (r' : Registry) (b : Bucket) (s : PolicyState),
      (r.addWatch i uid target false).finishEnsure i (.ofInt n) now outcome = (.ok outcome, r') ∧ ChangesOnly uid r r' ∧
        b.rate = n ∧ r'.holding? uid = some ⟨some { owner := uid, target, cancelled := false }, some b, s⟩ := by
  have hat := holdingAt_addWatch h.sound (h.sound.lt_size hslot) uid target false
  have hother {j : Nat} (hj : i ≠ j) : (r.addWatch i uid target false).holdingAt j = r.holdingAt j := by
    rw [hat, if_neg hj]
  have hsound : Sound (· = false) (r.addWatch i uid target false) := h.sound.addWatch hslot hnone target rfl
  have hmetered : Metered (r.addWatch i uid target false) := by
    refine h.metered.of_same (fun {j l} hl => ?_) rfl
    rw [slotAt_addWatch] at hl
    split at hl <;> exact hl
  have hwatch : (r.addWatch i uid target false).watchOf? i = some { owner := uid, target, cancelled := false } := by
    have := congrArg Holding.watch (hat i)
    rwa [if_pos rfl] at this
  have hindex (k : String) (_ : k ≠ uid) : (r.addWatch i uid target false).slot? k = r.slot? k := rfl
  obtain ⟨r', b, s, hfinish, hchanges, hrate, hholding⟩ := finishEnsure_changes hsound hmetered
    (fun hj => by rw [hother hj]; exact h.fitted) hslot hwatch h0 hn now outcome
  have hothers {k : String} (hk : k ≠ uid) : r'.holding? k = r.holding? k :=
    (hchanges.others hk).trans (holding?_of_ne h.sound hslot hindex (fun j hj => hother hj) hk)
  exact ⟨r', b, s, hfinish, ⟨hchanges.kept, hothers⟩, hrate, hholding⟩

/-- What a slot holds that needs nothing. -/
theorem watchOf?_of_need (hsound : Sound (· = false) r) (hslot : r.slot? uid = some i) {target : WatchTarget}
    (hneed : r.need i target = .nothing) :
    r.watchOf? i = some { owner := uid, target, cancelled := false } := by
  unfold need at hneed
  split at hneed
  · rename_i w hw
    have htarget : w.target = target := by
      split at hneed
      · assumption
      · cases hneed
    obtain ⟨k, hk, hwatch⟩ := Option.bind_eq_some_iff.mp hw
    obtain ⟨w', hw', howner, hlive⟩ := hsound.holds hk
    obtain rfl : w = w' := Option.some.inj (hwatch.symm.trans hw')
    rw [hw, ← htarget, ← hsound.injective howner hslot, ← hlive]
  · cases hneed

/-- Making sure that a policy has a watch on a target and a limiter at a whole rate. -/
theorem ensure_spec {σ : Type} (h : Kept r) {openWatch : WatchTarget → σ → Except WatchError Bool × σ}
    (hopen : ∀ target world, (openWatch target world).1 ≠ .ok true) (uid : String) (target : WatchTarget) {n : Nat}
    (h0 : 0 < n) (hn : n < 2 ^ 53) (now : Duration) (world : σ) :
    let left := (r.ensure openWatch uid target (.ofInt n) now world).1
    ChangesOnly uid r left.2 ∧ ∀ outcome, left.1 = .ok outcome → ∃ (b : Bucket) (s : PolicyState), b.rate = n ∧
      left.2.holding? uid = some ⟨some { owner := uid, target, cancelled := false }, some b, s⟩ := by
  have hfor := h.slotFor uid
  have hslot : (r.slotFor uid).2.slot? uid = some (r.slotFor uid).1 := by rw [slot?_slotFor, if_pos rfl]
  unfold ensure
  generalize r.slotFor uid = made at hfor hslot ⊢
  obtain ⟨i, r₀⟩ := made
  dsimp only at hfor hslot ⊢
  cases hneed : r₀.need i target with
  | nothing =>
    obtain ⟨r', b, s, hfinish, hchanges, hrate, hholding⟩ := finishEnsure_changes hfor.kept.sound hfor.kept.metered
      (fun _ => hfor.kept.fitted) hslot (watchOf?_of_need hfor.kept.sound hslot hneed) h0 hn now .reused
    dsimp only
    rw [hfinish]
    exact ⟨hfor.trans hchanges, fun _ _ => ⟨b, s, hrate, hholding⟩⟩
  | opening outcome =>
    have hstop := hfor.kept.stopWatch hslot
    have hcount : ChangesOnly uid r₀ (r₀.stopWatch i).countAttempt :=
      ⟨⟨hstop.kept.sound.sameWatches (.countAttempt _),
        hstop.kept.metered.of_same id rfl, hstop.kept.fitted⟩, hstop.others⟩
    have hslot' : (r₀.stopWatch i).countAttempt.slot? uid = some i := (slot?_stopWatch ..).trans hslot
    have hnone : ((r₀.stopWatch i).countAttempt.slotAt i).watch = none := r₀.watch_stopWatch i
    generalize (r₀.stopWatch i).countAttempt = r₁ at hcount hslot' hnone ⊢
    have hresult := hopen target world
    dsimp only
    split
    · exact ⟨hfor.trans hcount, fun _ hok => nomatch hok⟩
    · rename_i cancelled world' heq
      obtain rfl : cancelled = false := by
        rw [heq] at hresult
        simpa using hresult
      obtain ⟨r', b, s, hfinish, hchanges, hrate, hholding⟩ :=
        addWatch_changes hcount.kept hslot' hnone target h0 hn now outcome
      rw [hfinish]
      exact ⟨hfor.trans (hcount.trans hchanges), fun _ _ => ⟨b, s, hrate, hholding⟩⟩

/-- The numbers of the watch and the limiter that a policy has are its handles. -/
theorem exists_handles (h : Kept r) {held : Holding} (hheld : r.holding? uid = some held) {w : Watch}
    (hw : held.watch = some w) :
    ∃ (i : Nat) (hs : Handles) (b : Bucket), r.handles? uid = some hs ∧ r.slot? uid = some i ∧
      (r.slotAt i).watch = some hs.watch ∧ r.watches[hs.watch]? = some w ∧ hs.target = w.target ∧
      (r.slotAt i).limiter = some hs.limiter ∧ r.limiters[hs.limiter]? = some b ∧ held.limiter = some b := by
  obtain ⟨i, hslot, rfl⟩ := Option.map_eq_some_iff.mp hheld
  obtain ⟨k, hk, hwatch⟩ := Option.bind_eq_some_iff.mp hw
  obtain ⟨b, hb⟩ := Option.isSome_iff_exists.mp (h.fitted (Option.isSome_iff_exists.mpr ⟨w, hw⟩))
  obtain ⟨l, hl, hbucket⟩ := Option.bind_eq_some_iff.mp hb
  refine ⟨i, ⟨k, w.target, l⟩, b, ?_, hslot, hk, hwatch, rfl, hl, hbucket, hb⟩
  simp [handles?, handlesAt, hslot, hk, hl, hwatch]

/-- Putting the limiter of a policy back as a pass leaves it. -/
theorem setLimiter_spec (h : Kept r) (hslot : r.slot? uid = some i) {l : Nat} (hl : (r.slotAt i).limiter = some l)
    {b b' : Bucket} (hb : r.limiters[l]? = some b) (hrate : b'.rate = b.rate) :
    ChangesOnly uid r (r.setLimiter l b') ∧
      (r.setLimiter l b').holding? uid = some { r.holdingAt i with limiter := some b' } := by
  obtain ⟨n, hn, hwhole⟩ := h.metered.whole hb
  have hsound : Sound (· = false) (r.setLimiter l b') :=
    h.sound.sameWatches ⟨rfl, rfl, fun _ => rfl, fun _ => rfl, rfl⟩
  exact changesOnly_of_holdingAt h.sound hslot hsound (h.metered.setLimiter l hn (hrate.trans hwhole)) (fun _ => rfl)
    (holdingAt_setLimiter h.metered hl b') (fun _ => rfl) fun _ => h.fitted

end Registry

end Reaper
