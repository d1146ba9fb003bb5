import Reaper.Proofs.Pass.Moves

/-!
What a cancelled pass still does.

A cancelled pass asks for no slot any more. A deletion that was already waiting for one, or had been handed one, is
another matter: it begins its call when its turn comes, and only then learns of the cancellation.

  §1 Calls — the calls of a pass are only ever added to, at the present moment (`CallsPast`).
  §2 Loads — the calls of a deletion, and one more if it seeks a slot, never grow in number once the pass is cancelled
             (`Moves.load_le`). So a deletion makes at most one call after the cancellation (`calls_after_cancel_le`).
  §3 Late calls — from any state of a running pass in which somebody seeks a slot there is a way to a call at a later
             moment (`exists_late_call`).
-/

namespace Reaper.Pass

variable {plan : PassPlan}

/-! ## §1 Calls -/

/-- No call was begun later than now. -/
def CallsPast (p : Pass) : Prop := ∀ call ∈ p.calls, call.1.nanos ≤ p.now.nanos

@[simp] theorem releaseSlot_calls (p : Pass) : p.releaseSlot.calls = p.calls := by
  unfold releaseSlot
  split <;> rfl

theorem CallsPast.beginCall {p : Pass} (h : CallsPast p) (i n : Nat) : CallsPast (p.beginCall i n) := by
  intro call hcall
  rcases List.mem_cons.mp hcall with rfl | hcall
  · exact Nat.le_refl _
  · exact h call hcall

theorem CallsPast.move {p q : Pass} (h : CallsPast p) (hm : Move plan p q) : CallsPast q := by
  cases hm with
  | advance d =>
    intro call hcall
    exact Nat.le_trans (h call hcall) (Nat.le_add_right _ _)
  | seekSlot i n s hs hg hc =>
    unfold Pass.seekSlot
    split
    · exact h.beginCall i n
    · exact h
  | beginCall i n hs => exact h.beginCall i n
  | answer | answerLast => simpa [CallsPast, Pass.settle, Pass.put, (releaseSlot_sameClock p).1] using h
  | _ => exact h

/-- The calls of a running pass lie in the past. -/
theorem callsPast_run (plan : PassPlan) (bucket : Bucket) (now : Duration) (events : List PassEvent) :
    CallsPast ((start plan bucket now).run plan events) :=
  (run_moves _ events).keeps (fun _ _ h hm => h.move hm) (by simp [CallsPast, start])

/-- Calls are only added. -/
theorem Move.calls_suffix {p q : Pass} (hm : Move plan p q) : p.calls <:+ q.calls := by
  cases hm with
  | seekSlot i n s hs hg hc =>
    unfold Pass.seekSlot
    split
    · exact List.suffix_cons _ _
    · exact List.suffix_refl _
  | beginCall i n hs => exact List.suffix_cons _ _
  | answer | answerLast => simp [Pass.settle, Pass.put]
  | _ => exact List.suffix_refl _

theorem Moves.calls_suffix {p q : Pass} (hm : Moves plan p q) : p.calls <:+ q.calls := by
  induction hm with
  | refl => exact List.suffix_refl _
  | tail _ hm ih => exact ih.trans hm.calls_suffix

/-! ## §2 Loads -/

def callsOf (i : Nat) (p : Pass) : Nat := p.calls.countP (·.2 = i)

def seeks (i : Nat) (p : Pass) : Bool := p.stages[i]?.any Stage.seeksSlot

/-- The calls of a deletion that were begun or are sure to be. -/
def load (i : Nat) (p : Pass) : Nat := p.callsOf i + (p.seeks i).toNat

theorem any_put (f : Stage → Bool) (p : Pass) (i j : Nat) (s : Stage) :
    (p.put i s).stages[j]?.any f = if i = j then p.stages[j]?.isSome && f s else p.stages[j]?.any f := by
  rw [getElem?_put]
  split
  · cases p.stages[j]? <;> rfl
  · rfl

/-- Putting a deletion aside adds to no load. -/
theorem load_put_le {p : Pass} {s : Stage} (hs : s.isAside = true) (i j : Nat) : (p.put i s).load j ≤ p.load j := by
  have hseeks : s.seeksSlot = false := by
    cases s <;> simp_all [Stage.isAside, Stage.awaitsSlot, Stage.holdsSlot, Stage.seeksSlot]
  unfold load seeks
  rw [any_put]
  split
  · simp [hseeks, callsOf, put]
  · exact Nat.le_refl _

/-- Ending a deletion counts as putting it aside. -/
theorem load_settle (p : Pass) (i j : Nat) (d : Disposition) : (p.settle i d).load j = (p.put i (.settled d)).load j :=
  rfl

/-- Handing a slot on adds to no load: who is handed one was waiting for it. -/
theorem load_releaseSlot (p : Pass) (j : Nat) : p.releaseSlot.load j = p.load j := by
  have hgrant (s : Stage) : s.grant.seeksSlot = s.seeksSlot := by cases s <;> rfl
  unfold load seeks callsOf
  rw [releaseSlot_calls]
  unfold releaseSlot
  split
  · rfl
  · simp only [Array.getElem?_modify]
    split
    · cases p.stages[j]? <;> simp [hgrant]
    · rfl

/-- Beginning the call for which a slot was handed out adds to no load. -/
theorem load_beginCall_le {p : Pass} {i n : Nat} (hs : p.stages[i]? = some (.granted n)) (j : Nat) :
    (p.beginCall i n).load j ≤ p.load j := by
  have hcalls : (p.beginCall i n).callsOf j = p.callsOf j + if i = j then 1 else 0 := by
    simp [callsOf, Pass.beginCall, List.countP_cons]
  have hseeks : (p.beginCall i n).seeks j = if i = j then false else p.seeks j := by
    unfold seeks
    rw [show (p.beginCall i n).stages = (p.put i (.calling n)).stages from rfl, any_put]
    simp [Stage.seeksSlot]
  unfold load
  rw [hcalls, hseeks]
  split
  · subst i
    simp [seeks, hs, Stage.seeksSlot]
  · simp

theorem Move.cancelled {p q : Pass} (hm : Move plan p q) (hc : p.cancelled = true) : q.cancelled = true := by
  cases hm with
  | cancel => rfl
  | seekSlot i n s _ _ _ => exact (seekSlot_sameClock p i n).2.trans hc
  | answer i n s' _ _ _ => exact (releaseSlot_sameClock p).2.trans hc
  | answerLast i n d _ => exact (releaseSlot_sameClock p).2.trans hc
  | _ => exact hc

theorem Move.load_le {p q : Pass} (hm : Move plan p q) (hc : p.cancelled = true) (j : Nat) : q.load j ≤ p.load j := by
  cases hm with
  | put i s s' _ _ hnew _ => exact load_put_le hnew i j
  | settle i s d _ _ =>
    rw [load_settle]
    exact load_put_le rfl i j
  | seekSlot i n s _ _ hnot => simp [hc] at hnot
  | beginCall i n hs => exact load_beginCall_le hs j
  | answer i n s' _ hnew _ => exact Nat.le_trans (load_put_le hnew i j) (Nat.le_of_eq (load_releaseSlot p j))
  | answerLast i n d _ =>
    rw [load_settle]
    exact Nat.le_trans (load_put_le rfl i j) (Nat.le_of_eq (load_releaseSlot p j))
  | _ => exact Nat.le_refl _

theorem Moves.load_le {p q : Pass} (hm : Moves plan p q) (hc : p.cancelled = true) (j : Nat) : q.load j ≤ p.load j := by
  have h := hm.keeps (P := fun q => q.cancelled = true ∧ q.load j ≤ p.load j)
    (fun _ _ h hm => ⟨hm.cancelled h.1, Nat.le_trans (hm.load_le h.1 j) h.2⟩) ⟨hc, Nat.le_refl _⟩
  exact h.2

/-- After the cancellation a deletion makes at most one call, and that only if it was seeking a slot. -/
theorem calls_after_cancel_le (plan : PassPlan) (p : Pass) (after : List PassEvent) (i : Nat) :
    ((p.step plan .cancel).run plan after).callsOf i ≤ p.callsOf i + (p.seeks i).toNat :=
  Nat.le_trans (Nat.le_add_right _ _) ((run_moves (p.step plan .cancel) after).load_le rfl i)

/-- If nobody seeks a slot at the cancellation, no call is begun after it. -/
theorem calls_after_cancel_eq (plan : PassPlan) {p : Pass} (h : ∀ i, p.seeks i = false) (after : List PassEvent) :
    ((p.step plan .cancel).run plan after).calls = p.calls := by
  have hmoves : Moves plan (p.step plan .cancel) ((p.step plan .cancel).run plan after) := run_moves _ after
  obtain ⟨new, hnew⟩ := hmoves.calls_suffix
  rw [← hnew]
  have hnone : ∀ call, call ∉ new := by
    intro call hcall
    have hle := calls_after_cancel_le plan p after call.2
    have hpos : 0 < new.countP (·.2 = call.2) := List.countP_pos_iff.mpr ⟨call, hcall, by simp⟩
    simp only [callsOf, ← hnew, List.countP_append, h, Bool.toNat_false, Nat.add_zero] at hle
    have : (p.step plan .cancel).calls = p.calls := rfl
    rw [this] at hle
    omega
  rw [List.eq_nil_iff_forall_not_mem.mpr hnone]
  rfl

/-! ## §3 Late calls -/

/-- A deletion that has been handed a slot begins its call whenever it is resumed. -/
theorem resume_granted {p : Pass} {i n : Nat} (hs : p.stages[i]? = some (.granted n)) :
    p.resume plan i = p.beginCall i n := by
  unfold resume
  rw [hs]

/-- A call that succeeds hands its slot to the first in the queue, who begins a call when resumed. -/
theorem calls_reply_resume (plan : PassPlan) {total : Nat} {p : Pass} (h : SlotsAgree total p) {i n j : Nat}
    {rest : List Nat} (hs : p.stages[i]? = some (.calling n)) (hq : p.queue = j :: rest) :
    ((p.reply plan i (.ok ())).resume plan j).calls = (p.now, j) :: p.calls := by
  obtain ⟨hnil, -⟩ | ⟨j', rest', m, hq', hj, hrel⟩ := h.releaseSlot_cases
  · simp [hq] at hnil
  · obtain ⟨rfl, rfl⟩ := List.cons.inj (hq.symm.trans hq')
    have hij : i ≠ j := by
      rintro rfl
      simp [hs] at hj
    have hreply : p.reply plan i (.ok ()) = p.releaseSlot.settle i (disposition plan i (.deleted n)) := by
      unfold reply
      rw [hs]
      rfl
    have hgranted : (p.reply plan i (.ok ())).stages[j]? = some (.granted m) := by
      rw [hreply, hrel]
      simp [settle, hij, hj]
    rw [resume_granted hgranted, hreply]
    simp [Pass.beginCall, settle, Pass.put, (releaseSlot_sameClock p).1]

/-- While somebody seeks a slot, the pass can be brought to a call at a later moment. -/
theorem exists_late_call (plan : PassPlan) {total : Nat} {p : Pass} (h : SlotsAgree total p) (hpos : 0 < total)
    {i : Nat} (hi : p.seeks i = true) :
    ∃ after, ∃ call ∈ ((p.step plan .cancel).run plan after).calls, p.now.nanos < call.1.nanos := by
  -- the pass a nanosecond after its cancellation
  let later := (p.step plan .cancel).step plan (.advance ⟨1⟩)
  have hlater : p.now.nanos < later.now.nanos := Nat.lt_succ_self _
  have hgranted {k n : Nat} (hk : p.stages[k]? = some (.granted n)) :
      ∃ after, ∃ call ∈ ((p.step plan .cancel).run plan after).calls, p.now.nanos < call.1.nanos := by
    refine ⟨[.advance ⟨1⟩, .resume k], (later.now, k), ?_, hlater⟩
    have : later.resume plan k = later.beginCall k n := resume_granted hk
    simp only [run, List.foldl]
    rw [show ((p.step plan .cancel).step plan (.advance ⟨1⟩)).step plan (.resume k) = later.beginCall k n from this]
    exact List.mem_cons_self ..
  obtain ⟨s, hs, hseek⟩ := (Option.any_eq_true ..).mp hi
  cases s with
  | granted n => exact hgranted hs
  | awaitingSlot n =>
    have hmem : i ∈ p.queue := (h.mem_queue i).mpr (by simp [hs, Stage.awaitsSlot])
    have hne : p.queue ≠ [] := List.ne_nil_of_mem hmem
    -- no slot is free, so somebody has one
    have hheld : 0 < p.stages.countP Stage.holdsSlot := by
      have := h.free_eq_zero hne
      have := h.slots
      omega
    obtain ⟨s, hs', hholds⟩ := Array.countP_pos_iff.mp hheld
    obtain ⟨k, hk⟩ := Array.mem_iff_getElem?.mp hs'
    cases s with
    | granted m => exact hgranted hk
    | calling m =>
      obtain ⟨j, rest, hq⟩ := List.exists_cons_of_ne_nil hne
      have hagree : SlotsAgree total later := ⟨h.nodup, h.mem_queue, h.slots, h.free_eq_zero⟩
      refine ⟨[.advance ⟨1⟩, .reply k (.ok ()), .resume j], (later.now, j), ?_, hlater⟩
      have := calls_reply_resume plan hagree (i := k) (n := m) hk hq
      simp only [run, List.foldl]
      rw [show ((((p.step plan .cancel).step plan (.advance ⟨1⟩)).step plan (.reply k (.ok ()))).step plan
        (.resume j)).calls = (later.now, j) :: later.calls from this]
      exact List.mem_cons_self ..
    | _ => simp [Stage.holdsSlot] at hholds
  | _ => simp [Stage.seeksSlot] at hseek

end Reaper.Pass
