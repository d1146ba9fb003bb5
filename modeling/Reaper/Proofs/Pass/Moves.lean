import Mathlib.Logic.Relation
import Reaper.Pass

/-!
What can happen to the deletions of a pass.

Every event of a pass is a sequence of moves (`step_moves`), each of which concerns one deletion: it waits for something
else than a slot (`put`), ends (`settle`), asks for a slot (`seekSlot`), begins the call for which it was handed one
(`beginCall`), or gives its slot back (`answer`, `answerLast`). What a move keeps, every run keeps (`run_moves`).

  §1 Stages   — where a deletion stands with respect to the slots.
  §2 Moves    — the moves, and the events as sequences of them.
  §3 Slots    — the invariant `SlotsAgree`: the queue lists who waits for a slot, every slot is free or held, and no
                slot is free while somebody waits. It holds from the start of a pass on (`slotsAgree_run`).
  §4 Dry runs — in a dry run a deletion is new or at its end (`dryStages_run`).
-/

namespace Reaper

/-! ## §1 Stages -/

namespace Stage

def awaitsSlot : Stage → Bool
  | awaitingSlot _ => true
  | _ => false

/-- The deletion has been handed a slot, and has not begun its call. -/
def isGranted : Stage → Bool
  | granted _ => true
  | _ => false

/-- The deletion waits for a slot, or has been handed one and not begun its call. -/
def seeksSlot : Stage → Bool
  | awaitingSlot _ | granted _ => true
  | _ => false

/-- The deletion has neither a slot nor asked for one. -/
def isAside (s : Stage) : Bool := !s.awaitsSlot && !s.holdsSlot

/-- The deletion is aside and not at its end. -/
def isIdle : Stage → Bool
  | fresh | awaitingToken _ | pausing .. => true
  | _ => false

/-- The deletion can go on to something else than its end: in a dry run a new one cannot. -/
def goesOn (plan : PassPlan) (s : Stage) : Bool := s.isIdle && !(plan.dryRun && s == .fresh)

@[simp] theorem holdsSlot_awaitingSlot (n : Nat) : (awaitingSlot n).holdsSlot = false := rfl
@[simp] theorem holdsSlot_granted (n : Nat) : (granted n).holdsSlot = true := rfl
@[simp] theorem holdsSlot_calling (n : Nat) : (calling n).holdsSlot = true := rfl

theorem awaitsSlot_iff {s : Stage} : s.awaitsSlot = true ↔ ∃ n, s = awaitingSlot n := by
  cases s <;> simp [awaitsSlot]

theorem isAside_of_isIdle {s : Stage} (h : s.isIdle = true) : s.isAside = true := by
  cases s <;> simp_all [isIdle, isAside, awaitsSlot, holdsSlot]

theorem isIdle_of_goesOn {plan : PassPlan} {s : Stage} (h : s.goesOn plan = true) : s.isIdle = true := by
  simp only [goesOn, Bool.and_eq_true] at h
  exact h.1

theorem isAside_of_goesOn {plan : PassPlan} {s : Stage} (h : s.goesOn plan = true) : s.isAside = true :=
  isAside_of_isIdle (isIdle_of_goesOn h)

theorem awaitsSlot_of_isAside {s : Stage} (h : s.isAside = true) : s.awaitsSlot = false := by
  simp only [isAside, Bool.and_eq_true, Bool.not_eq_true'] at h
  exact h.1

theorem holdsSlot_of_isAside {s : Stage} (h : s.isAside = true) : s.holdsSlot = false := by
  simp only [isAside, Bool.and_eq_true, Bool.not_eq_true'] at h
  exact h.2

end Stage

namespace Pass

variable (plan : PassPlan)

/-! ## §2 Moves -/

/-- The moves of a pass. -/
inductive Move (p : Pass) : Pass → Prop where
  | advance (d : Duration) : Move p { p with now := ⟨p.now.nanos + d.nanos⟩ }
  | cancel : Move p { p with cancelled := true }
  | refill (b : Bucket) : Move p { p with bucket := b }
  | put (i : Nat) (s s' : Stage) : p.stages[i]? = some s → s.goesOn plan = true → s'.isAside = true →
      s'.disposition? = none → Move p (p.put i s')
  | settle (i : Nat) (s : Stage) (d : Disposition) : p.stages[i]? = some s → s.isIdle = true → Move p (p.settle i d)
  | seekSlot (i n : Nat) (s : Stage) : p.stages[i]? = some s → s.goesOn plan = true → p.cancelled = false →
      Move p (p.seekSlot i n)
  | beginCall (i n : Nat) : p.stages[i]? = some (.granted n) → Move p (p.beginCall i n)
  | answer (i n : Nat) (s' : Stage) : p.stages[i]? = some (.calling n) → s'.isAside = true →
      s'.disposition? = none → Move p (p.releaseSlot.put i s')
  | answerLast (i n : Nat) (d : Disposition) : p.stages[i]? = some (.calling n) → Move p (p.releaseSlot.settle i d)

abbrev Moves : Pass → Pass → Prop := Relation.ReflTransGen (Move plan)

variable {plan}

/-- What every move keeps, sequences of moves keep. -/
theorem Moves.keeps {P : Pass → Prop} (step : ∀ p q, P p → Move plan p q → P q) {p q : Pass} (hm : Moves plan p q)
    (h : P p) : P q := by
  induction hm with
  | refl => exact h
  | tail _ hm ih => exact step _ _ ih hm

@[simp] theorem getElem?_put (p : Pass) (i j : Nat) (s : Stage) :
    (p.put i s).stages[j]? = if i = j then p.stages[j]?.map fun _ => s else p.stages[j]? := by
  simp only [put, Array.getElem?_setIfInBounds]
  split
  · subst i
    by_cases h : j < p.stages.size <;> simp [h]
  · rfl

theorem seekToken_moves (p : Pass) {i : Nat} {s : Stage} (hs : p.stages[i]? = some s) (hg : s.goesOn plan = true) :
    Moves plan p (p.seekToken plan i) := by
  unfold seekToken
  split
  · exact .single (.settle i s _ hs (Stage.isIdle_of_goesOn hg))
  · rename_i hc
    split
    · rename_i b _
      refine .tail (.single (.refill b)) ?_
      simp only [attempt, RetryState.start, hc, if_false, Bool.false_eq_true]
      exact .seekSlot i _ s hs hg rfl
    · rename_i b d _
      exact .tail (.single (.refill b)) (.put i s _ hs hg rfl rfl)
    · rename_i b _
      exact .tail (.single (.refill b)) (.put i s _ hs hg rfl rfl)

theorem resume_moves (p : Pass) (i : Nat) : Moves plan p (p.resume plan i) := by
  unfold resume
  split
  · rename_i hs
    split
    · exact .single (.settle i _ _ hs rfl)
    · split
      · exact .single (.settle i _ _ hs rfl)
      · exact seekToken_moves p hs (by simp_all [Stage.goesOn, Stage.isIdle])
  · rename_i wake hs
    have hg : (Stage.awaitingToken wake).goesOn plan = true := by simp [Stage.goesOn, Stage.isIdle]
    split
    · exact .single (.settle i _ _ hs rfl)
    · split
      · exact seekToken_moves p hs hg
      · exact .refl
  · rename_i n hs
    exact .single (.beginCall i n hs)
  · rename_i n wake hs
    have hg : (Stage.pausing n wake).goesOn plan = true := by simp [Stage.goesOn, Stage.isIdle]
    split
    · exact .single (.settle i _ _ hs rfl)
    · rename_i hc
      split
      · simp only [attempt, RetryState.start, hc, if_false, Bool.false_eq_true]
        exact .single (.seekSlot i _ _ hs hg (by simp [hc]))
      · exact .refl
  · exact .refl

/-- A reply settles a deletion or makes it pause. -/
theorem answered_cases (limit n : Nat) (r : Reply) :
    (∃ o, RetryState.answered limit n r = .done o) ∨ RetryState.answered limit n r = .pausing n := by
  unfold RetryState.answered
  split
  · exact .inl ⟨_, rfl⟩
  · split
    · exact .inl ⟨_, rfl⟩
    · exact .inl ⟨_, rfl⟩
    · split
      · exact .inl ⟨_, rfl⟩
      · exact .inr rfl

theorem reply_moves (p : Pass) (i : Nat) (r : Reply) : Moves plan p (p.reply plan i r) := by
  unfold reply
  split
  · rename_i n hs
    obtain ⟨o, h⟩ | h := answered_cases plan.limit n r
    · simp only [h]
      exact .single (.answerLast i n _ hs)
    · simp only [h]
      split
      · exact .single (.answer i n _ hs rfl rfl)
      · exact .head (.answer i n _ hs rfl rfl) (resume_moves _ i)
  · exact .refl

theorem step_moves (p : Pass) (ev : PassEvent) : Moves plan p (p.step plan ev) := by
  cases ev with
  | advance d => exact .single (.advance d)
  | cancel => exact .single .cancel
  | resume i => exact resume_moves p i
  | reply i r => exact reply_moves p i r

theorem run_append (p : Pass) (before after : List PassEvent) :
    p.run plan (before ++ after) = (p.run plan before).run plan after :=
  List.foldl_append ..

theorem run_moves (p : Pass) (events : List PassEvent) : Moves plan p (p.run plan events) := by
  induction events generalizing p with
  | nil => exact .refl
  | cons ev events ih => exact (step_moves p ev).trans (ih (p.step plan ev))

/-- The time and the token are as they were. -/
def SameClock (p q : Pass) : Prop := q.now = p.now ∧ q.cancelled = p.cancelled

theorem seekSlot_sameClock (p : Pass) (i n : Nat) : SameClock p (p.seekSlot i n) := by
  unfold seekSlot
  split <;> exact ⟨rfl, rfl⟩

theorem releaseSlot_sameClock (p : Pass) : SameClock p p.releaseSlot := by
  unfold releaseSlot
  split <;> exact ⟨rfl, rfl⟩

theorem attempt_sameClock (plan : PassPlan) (p : Pass) (i n : Nat) : SameClock p (p.attempt plan i n) := by
  unfold attempt
  split
  · exact seekSlot_sameClock ..
  · exact ⟨rfl, rfl⟩
  · exact ⟨rfl, rfl⟩

theorem seekToken_sameClock (plan : PassPlan) (p : Pass) (i : Nat) : SameClock p (p.seekToken plan i) := by
  unfold seekToken
  split
  · exact ⟨rfl, rfl⟩
  · split
    · exact attempt_sameClock plan { p with bucket := _ } i 0
    · exact ⟨rfl, rfl⟩
    · exact ⟨rfl, rfl⟩

/-- Resuming a deletion takes no time, and does not cancel the pass. Neither does answering its call. -/
theorem resume_sameClock (plan : PassPlan) (p : Pass) (i : Nat) : SameClock p (p.resume plan i) := by
  unfold resume
  split
  · split
    · exact ⟨rfl, rfl⟩
    · split
      · exact ⟨rfl, rfl⟩
      · exact seekToken_sameClock plan p i
  · split
    · exact ⟨rfl, rfl⟩
    · split
      · exact seekToken_sameClock plan p i
      · exact ⟨rfl, rfl⟩
  · exact ⟨rfl, rfl⟩
  · split
    · exact ⟨rfl, rfl⟩
    · split
      · exact attempt_sameClock plan p i _
      · exact ⟨rfl, rfl⟩
  · exact ⟨rfl, rfl⟩

theorem reply_sameClock (plan : PassPlan) (p : Pass) (i : Nat) (r : Reply) : SameClock p (p.reply plan i r) := by
  have hrelease : SameClock p p.releaseSlot := releaseSlot_sameClock p
  unfold reply
  split
  · dsimp only
    split
    · exact hrelease
    · split
      · exact hrelease
      · obtain ⟨hnow, hcancelled⟩ := resume_sameClock plan (p.releaseSlot.put i (.pausing _ _)) i
        exact ⟨hnow.trans hrelease.1, hcancelled.trans hrelease.2⟩
    · exact hrelease
  · exact ⟨rfl, rfl⟩

/-! ## §3 Slots -/

/-- The queue, the free slots and the stages of a pass with `total` slots agree. -/
structure SlotsAgree (total : Nat) (p : Pass) : Prop where
  nodup : p.queue.Nodup
  mem_queue : ∀ i, i ∈ p.queue ↔ p.stages[i]?.any Stage.awaitsSlot = true
  /-- every slot is free or held -/
  slots : p.free + p.stages.countP Stage.holdsSlot = total
  /-- nobody waits for a slot that is free -/
  free_eq_zero : p.queue ≠ [] → p.free = 0

/-- Putting a deletion into another stage changes a count by that deletion alone. -/
theorem countP_put (f : Stage → Bool) (p : Pass) {i : Nat} {s : Stage} (s' : Stage) (hs : p.stages[i]? = some s) :
    (p.put i s').stages.countP f + (f s).toNat = p.stages.countP f + (f s').toNat := by
  obtain ⟨hi, rfl⟩ := Array.getElem?_eq_some_iff.mp hs
  have hpos : f p.stages[i] = true → 0 < p.stages.countP f := fun h =>
    Array.countP_pos_iff.mpr ⟨p.stages[i], Array.getElem_mem hi, h⟩
  simp only [put, Array.setIfInBounds, hi, dif_pos, Array.countP_set]
  cases h : f p.stages[i]
  · cases f s' <;> simp
  · have := hpos h
    cases f s' <;> simp only [if_true, Bool.toNat_true, Bool.toNat_false, Bool.false_eq_true, if_false] <;> omega

/-- The agreement after one deletion has changed its stage, in terms of what it adds to the queue and to the slots. -/
theorem SlotsAgree.update {total total' : Nat} {p q : Pass} (h : SlotsAgree total p) {i : Nat} {s : Stage} (s' : Stage)
    (hs : p.stages[i]? = some s) (hstages : q.stages = (p.put i s').stages) (hnodup : q.queue.Nodup)
    (hqueue : ∀ k, k ∈ q.queue ↔ if i = k then s'.awaitsSlot = true else k ∈ p.queue)
    (hfree : q.free + s'.holdsSlot.toNat + total = p.free + s.holdsSlot.toNat + total')
    (hzero : q.queue ≠ [] → q.free = 0) : SlotsAgree total' q where
  nodup := hnodup
  mem_queue k := by
    rw [hqueue, hstages, getElem?_put]
    split
    · subst i
      simp [hs]
    · exact h.mem_queue k
  slots := by
    have hcount := countP_put Stage.holdsSlot p s' hs
    have hslots := h.slots
    rw [hstages]
    omega
  free_eq_zero := hzero

/-- A deletion in some stage that does not wait for a slot is not in the queue. -/
theorem SlotsAgree.not_mem_queue {total : Nat} {p : Pass} (h : SlotsAgree total p) {i : Nat} {s : Stage}
    (hs : p.stages[i]? = some s) (hw : s.awaitsSlot = false) : i ∉ p.queue := by
  rw [h.mem_queue, hs]
  simp [hw]

/-- The queue as it is when a deletion neither joins nor leaves it. -/
theorem SlotsAgree.mem_queue_iff {total : Nat} {p : Pass} (h : SlotsAgree total p) {i : Nat} {s s' : Stage}
    (hs : p.stages[i]? = some s) (hw : s.awaitsSlot = false) (hw' : s'.awaitsSlot = false) (k : Nat) :
    k ∈ p.queue ↔ if i = k then s'.awaitsSlot = true else k ∈ p.queue := by
  split
  · subst i
    simp [h.not_mem_queue hs hw, hw']
  · rfl

theorem slotsAgree_start (plan : PassPlan) (bucket : Bucket) (now : Duration) :
    SlotsAgree plan.slots (start plan bucket now) where
  nodup := List.nodup_nil
  mem_queue i := by
    simp only [start, List.not_mem_nil, Array.getElem?_map, false_iff]
    cases plan.deletions[i]? <;> simp [Stage.awaitsSlot]
  slots := by
    have : (plan.deletions.map fun _ => Stage.fresh).countP Stage.holdsSlot = 0 := by
      rw [Array.countP_eq_zero]
      simp [Stage.holdsSlot]
    simp [start, this]
  free_eq_zero h := absurd rfl h

/-- A deletion that is not in the queue goes aside. What it held is gone from the total. -/
theorem SlotsAgree.putAside {total : Nat} {p : Pass} {i : Nat} {s s' : Stage} (hs : p.stages[i]? = some s)
    (h : SlotsAgree (total + s.holdsSlot.toNat) p) (hw : s.awaitsSlot = false) (hnew : s'.isAside = true) :
    SlotsAgree total (p.put i s') := by
  refine h.update s' hs rfl h.nodup (h.mem_queue_iff hs hw (Stage.awaitsSlot_of_isAside hnew)) ?_ h.free_eq_zero
  simp only [Pass.put, Stage.holdsSlot_of_isAside hnew, Bool.toNat_false]
  omega

/-- A deletion that is aside stays so. -/
theorem SlotsAgree.shift {total : Nat} {p : Pass} (h : SlotsAgree total p) {i : Nat} {s s' : Stage}
    (hs : p.stages[i]? = some s) (ha : s.isAside = true) (hnew : s'.isAside = true) : SlotsAgree total (p.put i s') :=
  .putAside hs (by simpa [Stage.holdsSlot_of_isAside ha] using h) (Stage.awaitsSlot_of_isAside ha) hnew

/-- A deletion takes a free slot and begins a call, or joins the queue. -/
theorem SlotsAgree.seekSlot {total : Nat} {p : Pass} (h : SlotsAgree total p) {i : Nat} {s : Stage}
    (hs : p.stages[i]? = some s) (ha : s.isAside = true) (n : Nat) : SlotsAgree total (p.seekSlot i n) := by
  have hw := Stage.awaitsSlot_of_isAside ha
  have hh := Stage.holdsSlot_of_isAside ha
  have hi := h.not_mem_queue hs hw
  unfold Pass.seekSlot
  split
  · rename_i hfree
    refine h.update (.calling n) hs rfl h.nodup (h.mem_queue_iff hs hw rfl) ?_ fun hq => ?_
    · simp only [Pass.beginCall, Pass.put, hh, Stage.holdsSlot_calling, Bool.toNat_false, Bool.toNat_true]
      omega
    · have : p.free = 0 := h.free_eq_zero hq
      omega
  · rename_i hfree
    refine h.update (.awaitingSlot n) hs rfl ?_ (fun k => ?_) ?_ fun _ => ?_
    · refine List.nodup_append.mpr ⟨h.nodup, by simp, ?_⟩
      intro a ha b hb
      rw [List.mem_singleton] at hb
      rintro rfl
      exact hi (hb ▸ ha)
    · rw [List.mem_append, List.mem_singleton]
      split
      · subst i
        simp [Stage.awaitsSlot]
      · rename_i hik
        simp [Ne.symm hik]
    · simp [Pass.put, hh]
    · simp only [Pass.put]
      omega

theorem SlotsAgree.beginCall {total : Nat} {p : Pass} (h : SlotsAgree total p) {i n : Nat}
    (hs : p.stages[i]? = some (.granted n)) : SlotsAgree total (p.beginCall i n) :=
  h.update (.calling n) hs rfl h.nodup (h.mem_queue_iff hs rfl rfl) rfl h.free_eq_zero

/-- A slot that is given back is free, or goes to the first in the queue. -/
theorem SlotsAgree.releaseSlot_cases {total : Nat} {p : Pass} (h : SlotsAgree total p) :
    (p.queue = [] ∧ p.releaseSlot = { p with free := p.free + 1 }) ∨
      ∃ j rest m, p.queue = j :: rest ∧ p.stages[j]? = some (.awaitingSlot m) ∧
        p.releaseSlot = { p.put j (.granted m) with queue := rest } := by
  unfold releaseSlot
  split
  · rename_i hq
    exact .inl ⟨hq, rfl⟩
  · rename_i j rest hq
    have hj : p.stages[j]?.any Stage.awaitsSlot = true := (h.mem_queue j).mp (by simp [hq])
    obtain ⟨s, hs, hw⟩ := (Option.any_eq_true ..).mp hj
    obtain ⟨m, rfl⟩ := Stage.awaitsSlot_iff.mp hw
    refine .inr ⟨j, rest, m, hq, hs, ?_⟩
    have : p.stages.modify j Stage.grant = p.stages.setIfInBounds j (.granted m) := by
      apply Array.ext_getElem?
      intro k
      rw [Array.getElem?_modify, Array.getElem?_setIfInBounds]
      split
      · subst j
        obtain ⟨hk, -⟩ := Array.getElem?_eq_some_iff.mp hs
        rw [hs, if_pos hk]
        rfl
      · rfl
    simp [this, Pass.put]

/-- A slot that is given back is one more in the total until its last holder has let go of it. -/
theorem SlotsAgree.releaseSlot {total : Nat} {p : Pass} (h : SlotsAgree total p) :
    SlotsAgree (total + 1) p.releaseSlot := by
  obtain ⟨hq, hrel⟩ | ⟨j, rest, m, hq, hj, hrel⟩ := h.releaseSlot_cases
  · rw [hrel]
    refine ⟨h.nodup, h.mem_queue, ?_, fun hne => absurd hq hne⟩
    have := h.slots
    simp only
    omega
  · rw [hrel]
    have hnodup := h.nodup
    rw [hq, List.nodup_cons] at hnodup
    refine h.update (.granted m) hj rfl hnodup.2 (fun k => ?_) ?_ fun _ => h.free_eq_zero (by simp [hq])
    · split
      · subst j
        simp [hnodup.1, Stage.awaitsSlot]
      · rename_i hjk
        simp [hq, Ne.symm hjk]
    · simp [Pass.put]
      omega

/-- A deletion whose call was answered still stands at its call when its slot has been handed on. -/
theorem SlotsAgree.getElem?_releaseSlot {total : Nat} {p : Pass} (h : SlotsAgree total p) {i n : Nat}
    (hs : p.stages[i]? = some (.calling n)) : p.releaseSlot.stages[i]? = some (.calling n) := by
  obtain ⟨-, hrel⟩ | ⟨j, rest, m, -, hj, hrel⟩ := h.releaseSlot_cases
  · rw [hrel]
    exact hs
  · have hji : j ≠ i := by
      rintro rfl
      simp [hs] at hj
    rw [hrel]
    simpa [hji] using hs

/-- A deletion whose call was answered gives its slot back and goes aside. -/
theorem SlotsAgree.answer {total : Nat} {p : Pass} (h : SlotsAgree total p) {i n : Nat} {s' : Stage}
    (hs : p.stages[i]? = some (.calling n)) (hnew : s'.isAside = true) :
    SlotsAgree total (p.releaseSlot.put i s') :=
  SlotsAgree.putAside (h.getElem?_releaseSlot hs) h.releaseSlot rfl hnew

theorem SlotsAgree.move {total : Nat} {p q : Pass} (h : SlotsAgree total p) (hm : Move plan p q) :
    SlotsAgree total q := by
  cases hm with
  | advance d => exact ⟨h.nodup, h.mem_queue, h.slots, h.free_eq_zero⟩
  | cancel => exact ⟨h.nodup, h.mem_queue, h.slots, h.free_eq_zero⟩
  | refill b => exact ⟨h.nodup, h.mem_queue, h.slots, h.free_eq_zero⟩
  | put i s s' hs hg hnew _ => exact h.shift hs (Stage.isAside_of_goesOn hg) hnew
  | settle i s d hs hi =>
    have : SlotsAgree total (p.put i (.settled d)) := h.shift hs (Stage.isAside_of_isIdle hi) rfl
    exact ⟨this.nodup, this.mem_queue, this.slots, this.free_eq_zero⟩
  | seekSlot i n s hs hg _ => exact h.seekSlot hs (Stage.isAside_of_goesOn hg) n
  | beginCall i n hs => exact h.beginCall hs
  | answer i n s' hs hnew _ => exact h.answer hs hnew
  | answerLast i n d hs =>
    have : SlotsAgree total (p.releaseSlot.put i (.settled d)) := h.answer hs rfl
    exact ⟨this.nodup, this.mem_queue, this.slots, this.free_eq_zero⟩

theorem slotsAgree_run (plan : PassPlan) (bucket : Bucket) (now : Duration) (events : List PassEvent) :
    SlotsAgree plan.slots ((start plan bucket now).run plan events) :=
  (run_moves _ events).keeps (fun _ _ h hm => h.move hm) (slotsAgree_start plan bucket now)

/-! ## §4 Dry runs -/

/-- No deletion is added or lost. -/
theorem Move.size_stages {p q : Pass} (hm : Move plan p q) : q.stages.size = p.stages.size := by
  have hrelease (p : Pass) : p.releaseSlot.stages.size = p.stages.size := by
    unfold Pass.releaseSlot
    split <;> simp
  cases hm with
  | seekSlot i n s _ _ _ =>
    unfold Pass.seekSlot
    split <;> simp [Pass.beginCall, Pass.put]
  | _ => simp [Pass.put, Pass.settle, Pass.beginCall, hrelease]

theorem size_stages_run (plan : PassPlan) (bucket : Bucket) (now : Duration) (events : List PassEvent) :
    ((start plan bucket now).run plan events).stages.size = plan.deletions.size :=
  (run_moves _ events).keeps (fun _ _ h hm => hm.size_stages.trans h) (by simp [start])

/-- Every deletion of a pass that has come to its end has ended in some way. -/
theorem exists_settled {p : Pass} (hsettled : p.isSettled = true) {i : Nat} (hi : i < p.stages.size) :
    ∃ d, p.stages[i]? = some (.settled d) := by
  have hended := Array.all_eq_true.mp hsettled i hi
  obtain ⟨d, hd⟩ := Option.isSome_iff_exists.mp hended
  refine ⟨d, ?_⟩
  rw [Array.getElem?_eq_getElem hi]
  cases hstage : p.stages[i] <;> simp_all [Stage.disposition?]

/-- Every deletion is new or at its end. -/
def DryStages (p : Pass) : Prop := ∀ (i : Nat) (s : Stage), p.stages[i]? = some s → s = .fresh ∨ ∃ d, s = .settled d

theorem DryStages.settle {p : Pass} (h : DryStages p) (i : Nat) (d : Disposition) : DryStages (p.settle i d) := by
  intro j s hs
  rw [show (p.settle i d).stages = (p.put i (.settled d)).stages from rfl, getElem?_put] at hs
  split at hs
  · obtain ⟨-, -, rfl⟩ := Option.map_eq_some_iff.mp hs
    exact .inr ⟨d, rfl⟩
  · exact h j s hs

/-- A move of a dry run ends a deletion, if it concerns one at all. -/
theorem DryStages.move (hdry : plan.dryRun = true) {p q : Pass} (h : DryStages p) (hm : Move plan p q) :
    DryStages q := by
  have hstays {i : Nat} {s : Stage} (hs : p.stages[i]? = some s) : s.goesOn plan = false := by
    rcases h i s hs with rfl | ⟨d, rfl⟩
    · simp [Stage.goesOn, hdry]
    · rfl
  cases hm with
  | settle i s d _ _ => exact h.settle i d
  | put i s s' hs hg _ _ => simp [hstays hs] at hg
  | seekSlot i n s hs hg _ => simp [hstays hs] at hg
  | beginCall i n hs => simpa using h i _ hs
  | answer i n s' hs _ _ => simpa using h i _ hs
  | answerLast i n d hs => simpa using h i _ hs
  | _ => exact h

theorem dryStages_run (hdry : plan.dryRun = true) (bucket : Bucket) (now : Duration) (events : List PassEvent) :
    DryStages ((start plan bucket now).run plan events) := by
  refine (run_moves _ events).keeps (fun _ _ h hm => h.move hdry hm) ?_
  intro i s hs
  simp only [start, Array.getElem?_map, Option.map_eq_some_iff] at hs
  obtain ⟨-, -, rfl⟩ := hs
  exact .inl rfl

end Pass

end Reaper
