import Reaper.Proofs.Bucket.Filling
import Reaper.Proofs.Registry.Limiters

/-!
The stock of limiters.

A registry brings its limiters to rates that are whole numbers, so all of them fill in good time, and a slot never has
the number of a limiter that is not there (`Stocked`). Whatever is done with a registry keeps it so: a pass always finds
the limiter of its policy (`exists_of_handles?`).

  §1 Steps      — what the steps do to the stock.
  §2 Operations — what the operations do to it.
-/

namespace Reaper.Registry

/-- Every limiter that a slot has is there, and all limiters fill in good time. -/
structure Stocked (r : Registry) : Prop where
  lt_size : ∀ {i l : Nat}, (r.slotAt i).limiter = some l → l < r.limiters.size
  brisk : ∀ {l : Nat} {b : Bucket}, r.limiters[l]? = some b → b.Brisk

variable {r r' : Registry} {uid : String} {i : Nat}

theorem stocked_empty : Stocked {} where
  lt_size hl := by simp [slotAt] at hl
  brisk hb := by simp at hb

namespace Stocked

/-! ## §1 Steps -/

/-- What gives no slot a limiter, and leaves the limiters alone. -/
theorem of_same (h : Stocked r) (hslots : ∀ {j l : Nat}, (r'.slotAt j).limiter = some l →
    (r.slotAt j).limiter = some l) (hlimiters : r'.limiters = r.limiters) : Stocked r' where
  lt_size hl := hlimiters ▸ h.lt_size (hslots hl)
  brisk hb := h.brisk (hlimiters ▸ hb)

theorem slotFor (h : Stocked r) (uid : String) : Stocked (r.slotFor uid).2 :=
  h.of_same (fun hl => by rwa [slotAt_slotFor] at hl) (limiters_slotFor r uid)

theorem stopWatch (h : Stocked r) (i : Nat) : Stocked (r.stopWatch i) := by
  refine h.of_same (fun {j l} hl => ?_) (limiters_stopWatch r i)
  rw [slotAt_stopWatch] at hl
  split at hl <;> exact hl

theorem retire (h : Stocked r) (uid : String) (i : Nat) : Stocked (r.retire uid i) := by
  refine h.of_same (fun {j l} hl => ?_) (limiters_retire r uid i)
  rw [slotAt_retire] at hl
  split at hl
  · cases hl
  · exact hl

theorem addWatch (h : Stocked r) (i : Nat) (owner : String) (target : WatchTarget) (cancelled : Bool) :
    Stocked (r.addWatch i owner target cancelled) := by
  refine h.of_same (fun {j l} hl => ?_) rfl
  rw [slotAt_addWatch] at hl
  split at hl <;> exact hl

/-- The limiters that are there are changed, so that they fill in good time. -/
theorem of_limiters (h : Stocked r) {limiters : Array Bucket} (hsize : limiters.size = r.limiters.size)
    (hbrisk : ∀ {l : Nat} {b : Bucket}, limiters[l]? = some b → b.Brisk) : Stocked { r with limiters } where
  lt_size hl := Nat.lt_of_lt_of_eq (h.lt_size hl) hsize.symm
  brisk := hbrisk

/-- Putting another bucket into the place of a limiter, if there is one. -/
theorem setLimiter (h : Stocked r) {l : Nat} {b : Bucket} (hb : l < r.limiters.size → b.Brisk) :
    Stocked (r.setLimiter l b) := by
  refine h.of_limiters Array.size_setIfInBounds fun {l' b'} hb' => ?_
  obtain ⟨rfl, hl⟩ | hold := cases_of_getElem?_set hb'
  · exact hb hl
  · exact h.brisk hold

theorem addLimiter (h : Stocked r) (i : Nat) {b : Bucket} (hb : b.Brisk) : Stocked (r.addLimiter i b) := by
  have hlimiters : (r.addLimiter i b).limiters = r.limiters.push b := rfl
  refine ⟨fun {j l} hl => ?_, fun {l b'} hb' => ?_⟩
  · rw [hlimiters, Array.size_push]
    rw [slotAt_addLimiter] at hl
    split at hl
    · cases hl
      exact Nat.lt_succ_self _
    · exact Nat.lt_succ_of_lt (h.lt_size hl)
  · obtain rfl | hold := cases_of_getElem?_push (hlimiters ▸ hb')
    · exact hb
    · exact h.brisk hold

/-- Bringing the limiter of a slot to a whole number of tokens a second. -/
theorem finishEnsure (h : Stocked r) (i n : Nat) (now : Duration) (outcome : EnsureOutcome) :
    Stocked (r.finishEnsure i (.ofInt n) now outcome).2 := by
  unfold Registry.finishEnsure Registry.setRate
  cases hrate : Bucket.rate? (.ofInt n) with
  | error e => exact h
  | ok q =>
    have hq := Bucket.IsBriskRate.of_rate?_ofInt hrate
    cases (r.slotAt i).limiter with
    | none => exact h.addLimiter i (.full hq now)
    | some l =>
      refine h.of_limiters (Array.size_modify ..) fun {l' b} hb => ?_
      obtain ⟨b', hb', rfl | rfl⟩ := exists_of_getElem?_modify hb
      · exact (h.brisk hb').setRate hq now
      · exact h.brisk hb'

/-! ## §2 Operations -/

theorem ensure {σ : Type} (h : Stocked r) (openWatch : WatchTarget → σ → Except WatchError Bool × σ) (uid : String)
    (target : WatchTarget) (n : Nat) (now : Duration) (world : σ) :
    Stocked (r.ensure openWatch uid target (.ofInt n) now world).1.2 := by
  have hslot := h.slotFor uid
  unfold Registry.ensure
  dsimp only
  split
  · exact hslot.finishEnsure ..
  · have hstopped : Stocked ((r.slotFor uid).2.stopWatch (r.slotFor uid).1).countAttempt :=
      (hslot.stopWatch _).of_same id rfl
    split
    · exact hstopped
    · exact (hstopped.addWatch ..).finishEnsure ..

theorem remove (h : Stocked r) (uid : String) : Stocked (r.remove uid).2 := by
  cases hslot : r.slot? uid with
  | none =>
    rw [remove_of_none hslot]
    exact h
  | some i =>
    rw [remove_of_slot? hslot]
    exact (h.stopWatch i).retire uid i

theorem prune (h : Stocked r) (live : List String) : Stocked (r.prune live).2 :=
  removeAll_induction (fun _ uid h => h.remove uid) h _

theorem setState (h : Stocked r) (uid : String) (s : PolicyState) : Stocked (r.setState uid s) := by
  unfold Registry.setState
  split
  · exact h.remove uid
  · refine (h.slotFor uid).of_same (fun {j l} hl => ?_) rfl
    rw [slotAt_modifySlot] at hl
    split at hl <;> exact hl

/-- A pass finds its limiter, and that fills in good time. -/
theorem exists_of_handles? (h : Stocked r) {hs : Handles} (hhandles : r.handles? uid = some hs) :
    ∃ b, r.limiters[hs.limiter]? = some b ∧ b.Brisk := by
  obtain ⟨i, -, hlimiter⟩ := Option.bind_eq_some_iff.mp (limiter?_of_handles? hhandles)
  have hb := Array.getElem?_eq_getElem (h.lt_size hlimiter)
  exact ⟨_, hb, h.brisk hb⟩

end Stocked

end Reaper.Registry
