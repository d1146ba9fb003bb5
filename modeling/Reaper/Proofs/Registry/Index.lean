import Reaper.Proofs.Registry.Tasks

/-!
What a step of a task does to the index.

A task that removes policies has let go of one when it is not left to be removed any more. The step that lets go of a
policy leaves it without a slot (`letsGo_advance`), and from then on the task does not touch it. A task that serves a
policy takes no slot away, and makes one only where it looks its policy up (`keeps_advance`).

  §1 Removal — tasks that remove policies.
  §2 Service — tasks that serve one policy.
-/

namespace Reaper.Task

open Registry (Sound SameWatches)

variable {P : Bool → Prop} {r r' : Registry} {t : Task} {uid : String}

/-! ## §1 Removal -/

/-- The task is to remove policies, among them this one if it has a slot. -/
structure Removes (t : Task) (uid : String) : Prop where
  goal : t.goal = .remove
  listing : ∀ live, t.point = .listing live → uid ∉ live

/-- The policy is not left to be removed. -/
def HasLetGo (t : Task) (uid : String) : Prop := (∀ live, t.point ≠ .listing live) ∧ uid ∉ t.uids

/-- What a step of a removal leaves for a policy: nothing changes for one that it has let go of, and one that it lets go
of has no slot. -/
structure LetsGo (r : Registry) (t : Task) (uid : String) (left : Registry × Task) : Prop where
  removes : left.2.Removes uid
  kept : t.HasLetGo uid → left.2.HasLetGo uid ∧ left.1.slot? uid = r.slot? uid
  gone : ¬ t.HasLetGo uid → left.2.HasLetGo uid → left.1.slot? uid = none

/-- A step after which the same policies are left, and all have the slots that they had. -/
theorem LetsGo.of_same {t' : Task} (ht : t.Removes uid) (hlisting : ∀ live, t.point ≠ .listing live)
    (hgoal : t'.goal = t.goal) (huids : t'.uids = t.uids) (hlisting' : ∀ live, t'.point ≠ .listing live)
    (hslot : r'.slot? uid = r.slot? uid) : LetsGo r t uid (r', t') where
  removes := ⟨hgoal.trans ht.goal, fun live h => absurd h (hlisting' live)⟩
  kept h := ⟨⟨hlisting', huids ▸ h.2⟩, hslot⟩
  gone h h' := absurd ⟨hlisting, huids ▸ h'.2⟩ h

/-- A step after which the first policy has no slot and is not left, and the others have the slots that they had. -/
theorem LetsGo.next (ht : t.Removes uid) (hlisting : ∀ live, t.point ≠ .listing live) {first : String}
    {rest : List String} (huids : t.uids = first :: rest) (hnone : r'.slot? first = none)
    (hother : ∀ k, k ≠ first → r'.slot? k = r.slot? k) (held : Bool) : LetsGo r t uid (r', t.next held) := by
  have hnext : (t.next held).goal = t.goal ∧ (t.next held).uids = rest ∧ (t.next held).point = .lookup := by
    unfold Task.next
    rw [huids]
    exact ⟨rfl, rfl, rfl⟩
  obtain ⟨hgoal, hrest, hpoint⟩ := hnext
  have hlisting' (live : List String) : (t.next held).point ≠ .listing live := by simp [hpoint]
  refine ⟨⟨hgoal.trans ht.goal, fun live h => absurd h (hlisting' live)⟩, fun h => ?_, fun h h' => ?_⟩
  · have hne : uid ≠ first ∧ uid ∉ rest := by simpa [huids] using h.2
    exact ⟨⟨hlisting', hrest ▸ hne.2⟩, hother uid hne.1⟩
  · -- the policy was left before and is not left now, so it was the first one
    have hleft : uid ∈ t.uids := Decidable.byContradiction fun hnot => h ⟨hlisting, hnot⟩
    have hlast : uid ∉ rest := hrest ▸ h'.2
    rw [huids, List.mem_cons] at hleft
    rw [hleft.resolve_right hlast]
    exact hnone

theorem LetsGo.retire (ht : t.Removes uid) (hlisting : ∀ live, t.point ≠ .listing live) {first : String}
    {rest : List String} (huids : t.uids = first :: rest) {i : Nat} (hslot : r.slot? first = some i) (held : Bool) :
    LetsGo r t uid (r.retire first i, t.next held) := by
  refine .next ht hlisting huids ?_ (fun k hk => ?_) held
  · rw [Registry.slot?_retire r hslot, if_pos rfl]
  · rw [Registry.slot?_retire r hslot, if_neg hk]

/-- Letting a removal go on. -/
theorem letsGo_advance (hagrees : t.Agrees r) (ht : t.Removes uid) (free : Nat → Bool) (now : Duration)
    (watch : Except WatchError Bool) : LetsGo r t uid (t.advance r free now watch) := by
  have hgoal := ht.goal
  unfold advance
  split
  · rename_i hpoint
    have hlisting (live : List String) : t.point ≠ .listing live := by simp [hpoint]
    exact .of_same ht hlisting rfl rfl hlisting rfl
  · -- the policies with a slot are listed; one that is not among the living and not in the list has none
    rename_i live hpoint
    refine ⟨⟨hgoal, by simp⟩, fun h => absurd hpoint (h.1 live), fun _ h => ?_⟩
    have hstale : uid ∉ r.stale live := h.2
    have hkey : uid ∉ r.index.keys := by
      intro hmem
      refine hstale (List.mem_filter.mpr ⟨hmem, ?_⟩)
      simpa using ht.listing live hpoint
    exact Dictionary.get?_eq_none_iff.mpr hkey
  · rename_i hlisting
    exact .of_same ht hlisting rfl rfl (by simp [finish]) rfl
  · rename_i first rest hpoint huids
    have hlisting (live : List String) : t.point ≠ .listing live := by simp [hpoint]
    rw [if_neg (by simp [creates, hgoal])]
    split
    · exact .of_same ht hlisting rfl rfl (by simp) rfl
    · rename_i hnone
      unfold missing
      rw [hgoal]
      exact .next ht hlisting huids hnone (fun _ _ => rfl) false
  · rename_i i first rest hpoint huids
    have hlisting (live : List String) : t.point ≠ .listing live := by simp [hpoint]
    split
    · exact .of_same ht hlisting rfl rfl hlisting rfl
    · split
      · exact .of_same ht hlisting rfl rfl (by simp) rfl
      · rename_i hretired
        have hslot : r.slot? first = some i := (hagrees.queued hpoint huids).2.resolve_left hretired
        unfold work
        rw [hgoal]
        dsimp only
        split
        · exact .of_same ht hlisting hgoal.symm rfl (by simp) (Registry.slot?_stopWatch ..)
        · exact .retire ht hlisting huids hslot _
  · rename_i i held first rest hpoint huids
    have hlisting (live : List String) : t.point ≠ .listing live := by simp [hpoint]
    have hholds : t.holds? = some i := by simp [holds?, hpoint]
    obtain ⟨first', rest', huids', hslot, -⟩ := hagrees.working hholds
    cases huids.symm.trans huids'
    unfold stopped
    rw [hgoal]
    exact .retire ht hlisting huids hslot held
  · rename_i i outcome first rest hpoint huids
    have hlisting (live : List String) : t.point ≠ .listing live := by simp [hpoint]
    unfold opened
    rw [hgoal]
    exact .of_same ht hlisting rfl rfl hlisting rfl

/-- A removal ends when no policy is left. -/
theorem hasLetGo_of_isSome_result? (hgoal : t.goal = .remove) (hunfinished : t.result? = none) {free : Nat → Bool}
    {now : Duration} {watch : Except WatchError Bool} (h : (t.advance r free now watch).2.result?.isSome = true)
    (uid : String) : t.HasLetGo uid := by
  have hnext (held : Bool) : (t.next held).result? = none := by
    unfold Task.next
    split <;> rfl
  unfold advance at h
  split at h
  · rw [hunfinished] at h
    cases h
  · cases h
  · rename_i huids _ hlisting
    refine ⟨hlisting, ?_⟩
    rw [huids]
    exact List.not_mem_nil
  · rename_i first rest hpoint huids
    rw [if_neg (by simp [creates, hgoal])] at h
    split at h
    · cases h
    · unfold missing at h
      rw [hgoal] at h
      simp [hnext] at h
  · split at h
    · rw [hunfinished] at h
      cases h
    · split at h
      · cases h
      · unfold work at h
        rw [hgoal] at h
        dsimp only at h
        split at h
        · cases h
        · simp [hnext] at h
  · unfold stopped at h
    rw [hgoal] at h
    simp [hnext] at h
  · unfold opened at h
    rw [hgoal] at h
    simp [hunfinished] at h

/-! ## §2 Service -/

/-- The task does something for one policy, and does not remove it. -/
structure Serves (t : Task) (uid : String) : Prop where
  uids : t.uids = [uid]
  goal : t.goal ≠ .remove
  listing : ∀ live, t.point ≠ .listing live
  stopping : ∀ i held, t.point = .stopping i held → ∃ target rate, t.goal = .ensure target rate

/-- The task is about to look the policy up, and makes a slot for it if there is none. -/
def MakesSlot (t : Task) (uid : String) : Prop := t.point = .lookup ∧ t.creates = true ∧ t.uids = [uid]

/-- What a step of a task leaves for the policy that it serves: its slot, and one that the task has made. -/
structure Keeps (r : Registry) (t : Task) (uid : String) (left : Registry × Task) : Prop where
  serves : left.2.Serves uid
  slot : left.1.slot? uid = none ↔ r.slot? uid = none ∧ ¬ t.MakesSlot uid

/-- A step of a task that has looked its policy up. -/
theorem Keeps.of_same {t' : Task} (ht : t.Serves uid) (hpoint : t.point ≠ .lookup) (hgoal : t'.goal = t.goal)
    (huids : t'.uids = t.uids) (hlisting : ∀ live, t'.point ≠ .listing live)
    (hstopping : ∀ i held, t'.point = .stopping i held → ∃ target rate, t.goal = .ensure target rate)
    (hslot : r'.slot? uid = r.slot? uid) : Keeps r t uid (r', t') where
  serves := ⟨huids.trans ht.uids, hgoal ▸ ht.goal, hlisting, fun i held h => hgoal ▸ hstopping i held h⟩
  slot := by
    rw [hslot]
    exact ⟨fun h => ⟨h, fun hmakes => hpoint hmakes.1⟩, fun h => h.1⟩

/-- A step after which the task has ended. -/
theorem Keeps.finish (ht : t.Serves uid) (hpoint : t.point ≠ .lookup) (result : TaskResult)
    (hslot : r'.slot? uid = r.slot? uid) : Keeps r t uid (r', t.finish result) :=
  .of_same ht hpoint rfl rfl (by simp [Task.finish]) (by simp [Task.finish]) hslot

theorem keeps_work (ht : t.Serves uid) (hpoint : t.point ≠ .lookup) (i : Nat) (now : Duration) :
    Keeps r t uid (t.work r uid i now) := by
  unfold work
  split
  · rename_i target rate hgoal
    split
    · exact .finish ht hpoint _ ((SameWatches.finishEnsure r i rate now .reused).slot? uid)
    · exact .of_same ht hpoint rfl rfl (by simp) (fun _ _ _ => ⟨target, rate, hgoal⟩) (Registry.slot?_stopWatch ..)
    · exact .of_same ht hpoint rfl rfl (by simp) (by simp) rfl
  · rename_i hgoal
    exact absurd hgoal ht.goal
  · exact .finish ht hpoint _ rfl
  · exact .finish ht hpoint _ rfl

theorem keeps_opened (ht : t.Serves uid) {i : Nat} {outcome : EnsureOutcome} (hpoint : t.point = .opening i outcome)
    (now : Duration) (watch : Except WatchError Bool) : Keeps r t uid (t.opened r uid i outcome now watch) := by
  have hlookup : t.point ≠ .lookup := by simp [hpoint]
  unfold opened
  split
  · rename_i target rate hgoal
    split
    · exact .finish ht hlookup _ rfl
    · rename_i cancelled
      exact .finish ht hlookup _
        ((SameWatches.finishEnsure (r.addWatch i uid target cancelled) i rate now outcome).slot? uid)
  · refine .of_same ht hlookup rfl rfl ht.listing (fun i held h => ?_) rfl
    rw [hpoint] at h
    cases h

/-- Letting a task go on that serves a policy. -/
theorem keeps_advance (ht : t.Serves uid) (free : Nat → Bool) (now : Duration) (watch : Except WatchError Bool) :
    Keeps r t uid (t.advance r free now watch) := by
  have huids := ht.uids
  unfold advance
  split
  · rename_i hpoint
    exact .of_same ht (by simp [hpoint]) rfl rfl ht.listing ht.stopping rfl
  · rename_i live hpoint
    exact absurd hpoint (ht.listing live)
  · rename_i hnil _ _
    rw [huids] at hnil
    cases hnil
  · rename_i first rest hpoint hfirst
    cases huids.symm.trans hfirst
    split
    · rename_i hcreates
      refine ⟨⟨huids, ht.goal, by simp, by simp⟩, ?_⟩
      rw [Registry.slot?_slotFor, if_pos rfl]
      exact ⟨by simp, fun h => absurd ⟨hpoint, hcreates, huids⟩ h.2⟩
    · rename_i hcreates
      have hno : ¬ t.MakesSlot uid := fun h => hcreates h.2.1
      split
      · exact ⟨⟨huids, ht.goal, by simp, by simp⟩, ⟨fun h => ⟨h, hno⟩, fun h => h.1⟩⟩
      · have hmissing : t.missing = t.finish (.found none none) := by
          unfold missing
          split
          · rename_i hgoal
            exact absurd hgoal ht.goal
          · rfl
        rw [hmissing]
        exact ⟨⟨huids, ht.goal, by simp [finish], by simp [finish]⟩, ⟨fun h => ⟨h, hno⟩, fun h => h.1⟩⟩
  · rename_i i first rest hpoint hfirst
    cases huids.symm.trans hfirst
    have hlookup : t.point ≠ .lookup := by simp [hpoint]
    split
    · exact .of_same ht hlookup rfl rfl ht.listing ht.stopping rfl
    · split
      · exact .of_same ht hlookup rfl rfl (by simp) (by simp) rfl
      · exact keeps_work ht hlookup i now
  · rename_i i held first rest hpoint hfirst
    cases huids.symm.trans hfirst
    obtain ⟨target, rate, hgoal⟩ := ht.stopping i held hpoint
    have hlookup : t.point ≠ .lookup := by simp [hpoint]
    unfold stopped
    rw [hgoal]
    exact .of_same ht hlookup hgoal.symm rfl (by simp) (by simp) rfl
  · rename_i i outcome first rest hpoint hfirst
    cases huids.symm.trans hfirst
    exact keeps_opened ht hpoint now watch

end Reaper.Task
