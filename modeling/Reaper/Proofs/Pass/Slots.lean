import Reaper.Proofs.Pass.Rota

/-!
The slots of a pass, deletion by deletion.

A deletion takes a slot for each of its calls, and gives it back when the call is answered: what it has taken is what it
has given back and what it holds (`slotsTaken_run`). A slot that is given back goes to whoever waits first. So nobody
waits while a slot is free, and when nobody can go on, every slot that is not free is in use by a call
(`IsResting.inFlight_add_free`).

  §1 Books     — slots that were taken, given back, and are held.
  §2 Resting   — passes that wait for time to go by and for replies, and for nothing else.
  §3 Schedules — who is handed a slot has a turn at once, so a schedule in which nobody has one rests.
-/

namespace Reaper

namespace Stage

/-- A slot is held for a call that is under way, or for one that is about to begin. -/
theorem toNat_holdsSlot (s : Stage) : s.holdsSlot.toNat = s.isGranted.toNat + s.isCalling.toNat := by
  cases s <;> rfl

/-- The deletion can go on at once: it is new, or has been handed a slot. -/
def isPoised : Stage → Bool
  | fresh | granted _ => true
  | _ => false

theorem canResume_of_isPoised {s : Stage} (h : s.isPoised = true) : s.canResume = true := by
  cases s <;> first | rfl | cases h

theorem holdsSlot_of_isCalling {s : Stage} (h : s.isCalling = true) : s.holdsSlot = true := by
  cases s <;> first | rfl | cases h

end Stage

namespace Pass

variable {plan : PassPlan} {p q : Pass} {i : Nat}

/-! ## §1 Books -/

/-- The calls of a deletion that are under way. -/
def underWay (i : Nat) (p : Pass) : Nat := (p.stages[i]?.any Stage.isCalling).toNat

/-- The slots that a deletion has taken: one for each call that it has begun, and one that it has been handed. -/
def slotsTaken (i : Nat) (p : Pass) : Nat := p.callsOf i + (p.stages[i]?.any Stage.isGranted).toNat

/-- The slots that a deletion holds. -/
def slotsHeld (i : Nat) (p : Pass) : Nat := (p.stages[i]?.any Stage.holdsSlot).toNat

/-- The event answers a call of the deletion. -/
def isAnswered (i : Nat) (p : Pass) : PassEvent → Bool
  | .reply j _ => j == i && p.stages[i]?.any Stage.isCalling
  | _ => false

/-- The slots that a deletion gives back along a sequence of events: one for each of its calls that is answered. -/
def slotsReturned (plan : PassPlan) (i : Nat) : Pass → List PassEvent → Nat
  | _, [] => 0
  | p, ev :: events => (p.isAnswered i ev).toNat + slotsReturned plan i (p.step plan ev) events

theorem slotsHeld_eq (i : Nat) (p : Pass) :
    p.slotsHeld i = (p.stages[i]?.any Stage.isGranted).toNat + p.underWay i := by
  unfold slotsHeld underWay
  cases p.stages[i]? with
  | none => rfl
  | some s => exact s.toNat_holdsSlot

theorem slotsHeld_of_not_holdsSlot {s : Stage} (hs : p.stages[i]? = some s) (h : s.holdsSlot = false) :
    p.slotsHeld i = 0 := by
  simp [slotsHeld, hs, h]

theorem underWay_releaseSlot (p : Pass) (i : Nat) : p.releaseSlot.underWay i = p.underWay i := by
  have hgrant (s : Stage) : s.grant.isCalling = s.isCalling := by cases s <;> rfl
  unfold underWay releaseSlot
  split
  · rfl
  · simp only [Array.getElem?_modify]
    split
    · cases p.stages[i]? <;> simp [hgrant]
    · rfl

/-- When one deletion goes on, everybody's calls have been answered as often as before. -/
theorem GoesOn.callsOf_add {j : Nat} (h : GoesOn j p q) (hidle : p.underWay j = 0) (i : Nat) :
    q.callsOf i + p.underWay i = p.callsOf i + q.underWay i := by
  have hcalls := h.callsOf i
  by_cases hij : i = j
  · subst i
    unfold underWay at hidle ⊢
    rw [hcalls, hidle]
    cases q.stages[j]?.any Stage.isCalling <;> simp
  · have hsame : q.underWay i = p.underWay i := by
      unfold underWay
      rw [h.others i hij]
    rw [hcalls, hsame]
    simp [hij]

/-- Who cannot be resumed stays where it is. -/
theorem resume_of_not_canResume (h : ∀ s, p.stages[i]? = some s → s.canResume = false) : p.resume plan i = p := by
  unfold resume
  cases hs : p.stages[i]? with
  | none => rfl
  | some s =>
    have hcannot := h s hs
    cases s <;> first | rfl | cases hcannot

/-- The reply to a call that is not under way changes nothing. -/
theorem reply_of_not_calling (h : ∀ n, p.stages[i]? ≠ some (.calling n)) (r : Reply) : p.reply plan i r = p := by
  unfold reply
  split
  · rename_i n hs
    exact absurd hs (h n)
  · rfl

theorem underWay_of_canResume {s : Stage} (hs : p.stages[i]? = some s) (h : s.canResume = true) : p.underWay i = 0 := by
  unfold underWay
  rw [hs]
  cases s <;> first | rfl | cases h

theorem callsOf_resume (p : Pass) (j i : Nat) :
    (p.resume plan j).callsOf i + p.underWay i = p.callsOf i + (p.resume plan j).underWay i := by
  by_cases h : ∃ s, p.stages[j]? = some s ∧ s.canResume = true
  · obtain ⟨s, hs, hresume⟩ := h
    exact (goesOn_resume hs hresume).callsOf_add (underWay_of_canResume hs hresume) i
  · rw [resume_of_not_canResume fun s hs => Bool.eq_false_iff.mpr fun hresume => h ⟨s, hs, hresume⟩]

/-- An event answers one call of a deletion, or leaves the number of its answered calls alone. -/
theorem callsOf_step {total : Nat} (hagree : SlotsAgree total p) (ev : PassEvent) (i : Nat) :
    (p.step plan ev).callsOf i + p.underWay i =
      p.callsOf i + (p.isAnswered i ev).toNat + (p.step plan ev).underWay i := by
  cases ev with
  | advance d => rfl
  | cancel => rfl
  | resume j => exact callsOf_resume p j i
  | reply j r =>
    by_cases h : ∃ n, p.stages[j]? = some (.calling n)
    · obtain ⟨n, hs⟩ := h
      have hgoes : GoesOn j p.releaseSlot (p.reply plan j r) := goesOn_reply hs (hagree.getElem?_releaseSlot hs) r
      have hreleased : p.releaseSlot.callsOf i = p.callsOf i := by simp [callsOf]
      show (p.reply plan j r).callsOf i + _ = _ + (p.reply plan j r).underWay i
      rw [hgoes.callsOf i, hreleased]
      by_cases hij : i = j
      · subst i
        simp only [isAnswered, underWay, hs, Option.any_some, Stage.isCalling, BEq.rfl, Bool.true_and, true_and,
          Bool.toNat_true]
        cases (p.reply plan j r).stages[j]?.any Stage.isCalling <;> simp
      · have hsame : (p.reply plan j r).underWay i = p.underWay i := by
          rw [← underWay_releaseSlot p i]
          unfold underWay
          rw [hgoes.others i hij]
        simp [isAnswered, hsame, hij, Ne.symm hij]
    · have hnot (n : Nat) : p.stages[j]? ≠ some (.calling n) := fun hs => h ⟨n, hs⟩
      have hsame : p.step plan (.reply j r) = p := reply_of_not_calling hnot r
      have hunanswered : p.isAnswered i (.reply j r) = false := by
        rw [Bool.eq_false_iff]
        intro hanswered
        simp only [isAnswered, Bool.and_eq_true, beq_iff_eq] at hanswered
        obtain ⟨rfl, hcalling⟩ := hanswered
        obtain ⟨s, hs, hcalling⟩ := (Option.any_eq_true ..).mp hcalling
        cases s with
        | calling n => exact hnot n hs
        | _ => cases hcalling
      rw [hsame, hunanswered]
      rfl

/-- What a deletion has taken is what it has given back and what it holds. -/
theorem slotsTaken_run {total : Nat} (hagree : SlotsAgree total p) (events : List PassEvent) (i : Nat) :
    (p.run plan events).slotsTaken i + p.slotsHeld i =
      p.slotsTaken i + slotsReturned plan i p events + (p.run plan events).slotsHeld i := by
  have hcalls : (p.run plan events).callsOf i + p.underWay i =
      p.callsOf i + slotsReturned plan i p events + (p.run plan events).underWay i := by
    induction events generalizing p with
    | nil => rfl
    | cons ev events ih =>
      have hnext : SlotsAgree total (p.step plan ev) :=
        (step_moves p ev).keeps (fun _ _ h hm => h.move hm) hagree
      have hstep := @callsOf_step plan p total hagree ev i
      have hrest := ih hnext
      show ((p.step plan ev).run plan events).callsOf i + _ =
        _ + (_ + slotsReturned plan i (p.step plan ev) events) + ((p.step plan ev).run plan events).underWay i
      omega
  simp only [slotsTaken, slotsHeld_eq]
  omega

/-- From the start of a pass on. -/
theorem slotsTaken_run_start (plan : PassPlan) (bucket : Bucket) (now : Duration) (events : List PassEvent) (i : Nat) :
    ((start plan bucket now).run plan events).slotsTaken i =
      slotsReturned plan i (start plan bucket now) events + ((start plan bucket now).run plan events).slotsHeld i := by
  have hrun := @slotsTaken_run plan _ _ (slotsAgree_start plan bucket now) events i
  have hfresh : (start plan bucket now).slotsTaken i = 0 ∧ (start plan bucket now).slotsHeld i = 0 := by
    simp only [slotsTaken, slotsHeld, callsOf, start, Array.getElem?_map, List.countP_nil, Nat.zero_add]
    cases plan.deletions[i]? <;> exact ⟨rfl, rfl⟩
  omega

/-- No more calls are under way than there are slots. -/
theorem SlotsAgree.inFlight_le {total : Nat} (h : SlotsAgree total p) : p.inFlight ≤ total := by
  have hmono : p.inFlight ≤ p.stages.countP Stage.holdsSlot :=
    Array.countP_mono_left fun _ _ hcalling => Stage.holdsSlot_of_isCalling hcalling
  have hslots := h.slots
  omega

/-- Once all deletions have ended, every slot has been given back. -/
theorem SlotsAgree.free_of_isSettled {total : Nat} (h : SlotsAgree total p) (hsettled : p.isSettled = true) :
    p.free = total := by
  have hnone : p.stages.countP Stage.holdsSlot = 0 := by
    rw [Array.countP_eq_zero]
    intro s hs hholds
    obtain ⟨j, hj⟩ := Array.mem_iff_getElem?.mp hs
    obtain ⟨d, hd⟩ := exists_settled hsettled (Array.getElem?_eq_some_iff.mp hj).1
    cases hj.symm.trans hd
    cases hholds
  have hslots := h.slots
  omega

/-! ## §2 Resting -/

/-- Nobody can go on: all that the pass waits for is time to go by and replies to come. -/
def IsResting (plan : PassPlan) (p : Pass) : Prop := ∀ i, p.resume plan i = p

/-- In a pass that rests nobody has a slot without a call. -/
theorem IsResting.not_granted (h : IsResting plan p) (i n : Nat) : p.stages[i]? ≠ some (.granted n) := by
  intro hs
  have hcalls := congrArg (fun q => q.calls.length) ((resume_granted hs).symm.trans (h i))
  simp [Pass.beginCall] at hcalls

/-- Where nobody has a slot without a call, every slot is free or used by a call. -/
theorem SlotsAgree.inFlight_add_free {total : Nat} (h : SlotsAgree total p)
    (hnobody : ∀ i n : Nat, p.stages[i]? ≠ some (.granted n)) : p.inFlight + p.free = total := by
  have hsame : p.inFlight = p.stages.countP Stage.holdsSlot := by
    refine Array.countP_congr fun s hs => ?_
    obtain ⟨i, hi⟩ := Array.mem_iff_getElem?.mp hs
    cases s with
    | granted n => exact absurd hi (hnobody i n)
    | _ => exact Iff.rfl
  have hslots := h.slots
  omega

/-- Where nobody holds a slot there are free ones. -/
theorem SlotsAgree.free_pos {total : Nat} (h : p.SlotsAgree total) (htotal : 0 < total)
    (hnobody : ∀ (i : Nat) stage, p.stages[i]? = some stage → stage.holdsSlot = false) : 0 < p.free := by
  have hnone : p.stages.countP Stage.holdsSlot = 0 := by
    rw [Array.countP_eq_zero]
    intro stage hmem hholds
    obtain ⟨i, hs⟩ := Array.mem_iff_getElem?.mp hmem
    rw [hnobody i stage hs] at hholds
    cases hholds
  have := h.slots
  omega

/-- Nobody waits for a slot that is free. -/
theorem SlotsAgree.free_of_awaitingSlot {total : Nat} (h : SlotsAgree total p) {n : Nat}
    (hs : p.stages[i]? = some (.awaitingSlot n)) : p.free = 0 := by
  have hmem : i ∈ p.queue := (h.mem_queue i).mpr (by simp [hs, Stage.awaitsSlot])
  exact h.free_eq_zero (List.ne_nil_of_mem hmem)

/-- Where nobody has a slot without a call, somebody seeks one only while every slot is used by a call. -/
theorem SlotsAgree.inFlight_of_seeks {total : Nat} (h : SlotsAgree total p)
    (hnobody : ∀ i n : Nat, p.stages[i]? ≠ some (.granted n)) (hi : p.seeks i = true) :
    p.free = 0 ∧ p.inFlight = total := by
  have hall := h.inFlight_add_free hnobody
  obtain ⟨s, hs, hseeks⟩ := (Option.any_eq_true ..).mp hi
  cases s with
  | awaitingSlot n =>
    have hnone := h.free_of_awaitingSlot hs
    exact ⟨hnone, by omega⟩
  | granted n => exact absurd hs (hnobody i n)
  | _ => cases hseeks

/-! ## §3 Schedules -/

/-- The deletion can go on at once. -/
def isPoised (i : Nat) (p : Pass) : Bool := p.stages[i]?.any Stage.isPoised

theorem isPoised_put (p : Pass) (i : Nat) {s : Stage} (hs : s.isPoised = false) : (p.put i s).isPoised i = false := by
  unfold isPoised
  rw [any_put, if_pos rfl, hs, Bool.and_false]

theorem isPoised_seekSlot (p : Pass) (i n : Nat) : (p.seekSlot i n).isPoised i = false := by
  obtain ⟨-, heq⟩ | ⟨-, heq⟩ := seekSlot_cases p i n
  · rw [heq]
    exact isPoised_put { p with free := p.free - 1 } i (s := .calling n) rfl
  · rw [heq]
    exact isPoised_put p i (s := .awaitingSlot n) rfl

theorem isPoised_attempt (p : Pass) (i n : Nat) : (p.attempt plan i n).isPoised i = false := by
  unfold attempt RetryState.start
  cases p.cancelled with
  | true => exact isPoised_put p i (s := .settled _) rfl
  | false => exact isPoised_seekSlot p i (n + 1)

theorem isPoised_seekToken (p : Pass) (i : Nat) : (p.seekToken plan i).isPoised i = false := by
  unfold seekToken
  split
  · exact isPoised_put p i (s := .settled _) rfl
  · split
    · exact isPoised_attempt ..
    · exact isPoised_put { p with bucket := _ } i (s := .awaitingToken _) rfl
    · exact isPoised_put { p with bucket := _ } i (s := .stranded) rfl

/-- Who has been resumed is not new any more, nor left with a slot and no call. -/
theorem isPoised_resume (p : Pass) (i : Nat) : (p.resume plan i).isPoised i = false := by
  have hstays {s : Stage} (hs : p.stages[i]? = some s) (hnot : s.isPoised = false) : p.isPoised i = false := by
    unfold isPoised
    rw [hs]
    exact hnot
  by_cases h : ∃ s, p.stages[i]? = some s ∧ s.canResume = true
  · obtain ⟨s, hs, hresume⟩ := h
    unfold resume
    rw [hs]
    cases s with
    | fresh =>
      dsimp only
      split
      · exact isPoised_put p i (s := .settled _) rfl
      · split
        · exact isPoised_put p i (s := .settled _) rfl
        · exact isPoised_seekToken p i
    | awaitingToken wake =>
      dsimp only
      split
      · exact isPoised_put p i (s := .settled _) rfl
      · split
        · exact isPoised_seekToken p i
        · exact hstays hs rfl
    | granted n => exact isPoised_put p i (s := .calling n) rfl
    | pausing n wake =>
      dsimp only
      split
      · exact isPoised_put p i (s := .settled _) rfl
      · split
        · exact isPoised_attempt p i n
        · exact hstays hs rfl
    | _ => cases hresume
  · rw [resume_of_not_canResume fun s hs => Bool.eq_false_iff.mpr fun hresume => h ⟨s, hs, hresume⟩]
    cases hpoised : p.isPoised i with
    | false => rfl
    | true =>
      obtain ⟨s, hs, hs'⟩ := (Option.any_eq_true ..).mp hpoised
      exact absurd ⟨s, hs, Stage.canResume_of_isPoised hs'⟩ h

/-- Neither is whose call has been answered. -/
theorem isPoised_reply {n : Nat} (hs : p.stages[i]? = some (.calling n)) (r : Reply) :
    (p.reply plan i r).isPoised i = false := by
  unfold reply
  rw [hs]
  dsimp only
  obtain ⟨o, hanswered⟩ | hanswered := answered_cases plan.limit n r
  · rw [hanswered]
    exact isPoised_put p.releaseSlot i (s := .settled _) rfl
  · rw [hanswered]
    dsimp only
    split
    · exact isPoised_put p.releaseSlot i (s := .stranded) rfl
    · exact isPoised_resume ..

end Pass

namespace Schedule

variable {σ : Type} {plan : PassPlan} {backend : DeleteBackend σ} {s v : Schedule σ}

/-- Who can go on at once is ready to do so. -/
def PoisedReady (s : Schedule σ) : Prop := ∀ i, s.pass.isPoised i = true → .resume i ∈ s.ready

/-- Arranging what comes after a turn takes away nobody's turn. -/
theorem ready_subset_follow (i : Nat) (s : Schedule σ) : s.ready ⊆ (follow plan backend i s).ready := by
  unfold follow
  split
  · split
    · exact List.subset_cons_self ..
    · split
      · exact List.subset_append_left ..
      · exact List.Subset.refl _
  · exact List.Subset.refl _
  · split <;> exact List.Subset.refl _
  · exact List.Subset.refl _

/-- After a turn, who can go on at once could do so before, or has been handed a slot. -/
theorem isPoised_turn {total : Nat} {p : Pass} (hagree : Pass.SlotsAgree total p) (t : Turn) {i : Nat}
    (h : (p.step plan t.event).isPoised i = true) :
    p.isPoised i = true ∧ t ≠ .resume i ∨ .resume i ∈ handedTo p t := by
  have hsame {q : Pass} (hq : q.isPoised i = true) (hstage : q.stages[i]? = p.stages[i]?) : p.isPoised i = true := by
    unfold Pass.isPoised at hq ⊢
    rwa [hstage] at hq
  cases t with
  | resume j =>
    have hij : j ≠ i := by
      rintro rfl
      exact Bool.eq_false_iff.mp (Pass.isPoised_resume p j) h
    refine .inl ⟨?_, fun heq => hij (Turn.resume.inj heq)⟩
    by_cases hresume : ∃ s, p.stages[j]? = some s ∧ s.canResume = true
    · obtain ⟨s, hs, hresume⟩ := hresume
      exact hsame h ((Pass.goesOn_resume hs hresume).others i hij.symm)
    · rwa [show p.step plan (Turn.resume j).event = p from Pass.resume_of_not_canResume fun s hs =>
        Bool.eq_false_iff.mpr fun hcan => hresume ⟨s, hs, hcan⟩] at h
  | deliver j r =>
    by_cases hcalling : ∃ n, p.stages[j]? = some (.calling n)
    · obtain ⟨n, hs⟩ := hcalling
      have hij : j ≠ i := by
        rintro rfl
        exact Bool.eq_false_iff.mp (Pass.isPoised_reply hs r) h
      have hothers : (p.step plan (Turn.deliver j r).event).stages[i]? = p.releaseSlot.stages[i]? :=
        (Pass.goesOn_reply hs (hagree.getElem?_releaseSlot hs) r).others i hij.symm
      obtain ⟨-, hrel⟩ | ⟨k, rest, m, hqueue, -, hrel⟩ := hagree.releaseSlot_cases
      · exact .inl ⟨hsame h (by rw [hothers, hrel]), fun heq => nomatch heq⟩
      · by_cases hki : k = i
        · subst k
          exact .inr (by simp [handedTo, hqueue, Turn.isDelivery])
        · refine .inl ⟨hsame h ?_, fun heq => nomatch heq⟩
          rw [hothers, hrel]
          exact (Pass.getElem?_put p k i (.granted m)).trans (if_neg hki)
    · rw [show p.step plan (Turn.deliver j r).event = p from
        Pass.reply_of_not_calling (fun n hs => hcalling ⟨n, hs⟩) r] at h
      exact .inl ⟨h, fun heq => nomatch heq⟩

/-- All along a schedule who can go on at once is ready to do so. -/
theorem poisedReady_of_reaches {bucket : Bucket} {clock : Millis} {cancelAt : Option Millis} {world : σ}
    (h : Reaches plan backend (start plan bucket clock cancelAt world) s) : s.PoisedReady := by
  induction h with
  | refl =>
    intro i hi
    obtain ⟨stage, hs, -⟩ := (Option.any_eq_true ..).mp hi
    have hfresh : i < plan.deletions.size := by
      simpa [start, Pass.start] using (Array.getElem?_eq_some_iff.mp hs).1
    exact List.mem_map_of_mem (List.mem_range.mpr hfresh)
  | @tail s v hreach hstep ih =>
    obtain ⟨events, hevents⟩ := Reaches.events hreach
    have hagree : Pass.SlotsAgree plan.slots s.pass := hevents ▸ Pass.slotsAgree_run plan bucket _ events
    obtain ⟨t, ready, hready, rfl⟩ | ⟨t, -, -, rfl⟩ := step?_cases hstep
    · intro i hi
      rw [act_pass] at hi
      unfold act
      refine ready_subset_follow _ _ (List.mem_append.mpr ?_)
      rcases isPoised_turn hagree t hi with ⟨hold, hother⟩ | hhanded
      · have hmem := ih i hold
        rw [hready] at hmem
        exact .inl ((List.mem_cons.mp hmem).resolve_left hother.symm)
      · exact .inr hhanded
    · intro i hi
      have hold : s.pass.isPoised i = true := by
        unfold Pass.isPoised at hi ⊢
        rwa [jump_stages] at hi
      have hmem := ih i hold
      unfold Schedule.jump
      dsimp only
      split <;> exact List.mem_append_left _ hmem

/-- A schedule in which nobody has a turn has all slots in use if somebody seeks one. -/
theorem inFlight_of_waiting {bucket : Bucket} {clock : Millis} {cancelAt : Option Millis} {world : σ}
    (h : Reaches plan backend (start plan bucket clock cancelAt world) s) (hready : s.ready = []) {i : Nat}
    (hi : s.pass.seeks i = true) : s.pass.free = 0 ∧ s.pass.inFlight = plan.slots := by
  obtain ⟨events, hevents⟩ := Reaches.events h
  have hagree : Pass.SlotsAgree plan.slots s.pass := hevents ▸ Pass.slotsAgree_run plan bucket _ events
  have hnobody (j n : Nat) : s.pass.stages[j]? ≠ some (.granted n) := by
    intro hj
    have hmem := poisedReady_of_reaches h j ((Option.any_eq_true ..).mpr ⟨_, hj, rfl⟩)
    rw [hready] at hmem
    cases hmem
  exact hagree.inFlight_of_seeks hnobody hi

theorem peak_follow (i : Nat) (s : Schedule σ) : (follow plan backend i s).peak = s.peak := by
  unfold follow
  split
  · split
    · rfl
    · split <;> rfl
  · rfl
  · split <;> rfl
  · rfl

/-- All along a schedule no more calls were under way at once than there are slots. -/
theorem peak_le {bucket : Bucket} {clock : Millis} {cancelAt : Option Millis} {world : σ}
    (h : Reaches plan backend (start plan bucket clock cancelAt world) s) : s.peak ≤ plan.slots := by
  induction h with
  | refl => exact Nat.zero_le _
  | @tail s v hreach hstep ih =>
    obtain ⟨events, hevents⟩ := Reaches.events (hreach.tail hstep)
    have hagree : Pass.SlotsAgree plan.slots v.pass := hevents ▸ Pass.slotsAgree_run plan bucket _ events
    obtain ⟨t, ready, -, rfl⟩ | ⟨t, -, -, rfl⟩ := step?_cases hstep
    · have hinFlight := hagree.inFlight_le
      rw [act_pass] at hinFlight
      unfold act
      rw [peak_follow]
      exact Nat.max_le.mpr ⟨ih, hinFlight⟩
    · unfold Schedule.jump
      dsimp only
      split <;> exact ih

end Schedule

end Reaper
