import Reaper.Proofs.Pass.Cancellation

/-!
What exactly happens in a pass.

A move tells what a deletion does with the slots. A change also tells the number of the call, the token, and the reply
that made the deletion do it. Every event of a pass is a sequence of changes (`step_changes`), and every change is a
sequence of moves (`Change.moves`), so that what is known of moves can be used along changes.

  §1 Stages  — what holds of the stage of every deletion (`AtEach`), and how it is kept.
  §2 Changes — the changes, and the events as sequences of them. The replies are bounded by what is `given`: a reply to
               a call of a deletion with the number of the call.
  §3 Numbers — a stage knows how many calls its deletion has begun (`Counted`).
-/

namespace Reaper

namespace Stage

/-- The deletion is yet to get its token. -/
def seeksToken : Stage → Bool
  | fresh | awaitingToken _ => true
  | _ => false

/-- The stage is one of a deletion that has begun so many calls. -/
def Counts (begun : Nat) : Stage → Prop
  | fresh | awaitingToken _ => begun = 0
  | awaitingSlot n | granted n => n = begun + 1
  | calling n | pausing n _ => n = begun ∧ 0 < begun
  | settled _ | stranded => True

end Stage

namespace Pass

variable {plan : PassPlan} {p q : Pass}

/-! ## §1 Stages -/

/-- Something holds of the stage of every deletion. -/
def AtEach (P : Nat → Stage → Prop) (p : Pass) : Prop := ∀ i s, p.stages[i]? = some s → P i s

variable {P P' : Nat → Stage → Prop}

theorem AtEach.mono (h : AtEach P p) (hP : ∀ i s, P i s → P' i s) : AtEach P' p :=
  fun i s hs => hP i s (h i s hs)

theorem AtEach.put (h : AtEach P p) {i : Nat} {s' : Stage} (hs' : P i s') : AtEach P (p.put i s') := by
  intro j s hs
  rw [getElem?_put] at hs
  split at hs
  · subst i
    obtain ⟨-, -, rfl⟩ := Option.map_eq_some_iff.mp hs
    exact hs'
  · exact h j s hs

/-- What does not tell a deletion with a slot from one that waits for it survives the handing on of slots. -/
theorem AtEach.releaseSlot (h : AtEach P p) (hgrant : ∀ i n, P i (.awaitingSlot n) → P i (.granted n)) :
    AtEach P p.releaseSlot := by
  unfold Pass.releaseSlot
  split
  · exact h
  · rename_i j rest _
    intro k s hs
    simp only [Array.getElem?_modify] at hs
    split at hs
    · obtain ⟨s', hs', rfl⟩ := Option.map_eq_some_iff.mp hs
      have hP := h k s' hs'
      cases s' with
      | awaitingSlot n => exact hgrant k n hP
      | _ => exact hP
    · exact h k s hs

/-- A deletion that asks for a slot has one and begins its call, or waits. -/
theorem seekSlot_cases (p : Pass) (i n : Nat) :
    (0 < p.free ∧ p.seekSlot i n = { p with free := p.free - 1 }.beginCall i n) ∨
      (p.free = 0 ∧ p.seekSlot i n = { p.put i (.awaitingSlot n) with queue := p.queue ++ [i] }) := by
  unfold Pass.seekSlot
  split
  · rename_i hfree
    exact .inl ⟨hfree, rfl⟩
  · exact .inr ⟨by omega, rfl⟩

@[simp] theorem seekSlot_bucket (p : Pass) (i n : Nat) : (p.seekSlot i n).bucket = p.bucket := by
  unfold Pass.seekSlot
  split <;> rfl

@[simp] theorem releaseSlot_bucket (p : Pass) : p.releaseSlot.bucket = p.bucket := by
  unfold Pass.releaseSlot
  split <;> rfl

theorem AtEach.seekSlot (h : AtEach P p) {i n : Nat} (hcalling : P i (.calling n)) (hwaiting : P i (.awaitingSlot n)) :
    AtEach P (p.seekSlot i n) := by
  obtain ⟨-, heq⟩ | ⟨-, heq⟩ := seekSlot_cases p i n
  · rw [heq]
    exact AtEach.put h hcalling
  · rw [heq]
    exact AtEach.put h hwaiting

/-! ## §2 Changes -/

/-- The changes of a pass in which the reply `r` to call number `n` of deletion `i` has to be `given i n r`. -/
inductive Change (plan : PassPlan) (given : Nat → Nat → Reply → Prop) (p : Pass) : Pass → Prop where
  | advance (d : Duration) : Change plan given p { p with now := ⟨p.now.nanos + d.nanos⟩ }
  | cancel : Change plan given p { p with cancelled := true }
  /-- a deletion ends without a call, or between two calls -/
  | drop (i : Nat) (s : Stage) (d : Disposition) : p.stages[i]? = some s → s.isIdle = true →
      (p.cancelled = true ∧ d = .cancelled ∨ plan.dryRun = true ∧ s = .fresh ∧ d = .dryRun) →
      Change plan given p (p.settle i d)
  /-- a deletion gets its token and asks for a slot -/
  | token (i : Nat) (s : Stage) (b : Bucket) : p.stages[i]? = some s → s.seeksToken = true →
      s.goesOn plan = true → p.cancelled = false → p.bucket.request plan.round p.now = (b, .granted) →
      Change plan given p ({ p with bucket := b }.seekSlot i 1)
  /-- a deletion finds no token -/
  | noToken (i : Nat) (s s' : Stage) (b : Bucket) (taking : Bucket.Taking) : p.stages[i]? = some s →
      s.seeksToken = true → s.goesOn plan = true → p.bucket.request plan.round p.now = (b, taking) →
      taking ≠ .granted → (s' = .stranded ∧ taking = .unrepresentable ∨ ∃ wake, s' = .awaitingToken wake) →
      Change plan given p ({ p with bucket := b }.put i s')
  | begin (i n : Nat) : p.stages[i]? = some (.granted n) → Change plan given p (p.beginCall i n)
  /-- a deletion asks for a slot again after a pause -/
  | again (i n : Nat) (wake : Duration) : p.stages[i]? = some (.pausing n wake) → p.cancelled = false →
      Change plan given p (p.seekSlot i (n + 1))
  | answer (i n : Nat) (r : Reply) (s' : Stage) : p.stages[i]? = some (.calling n) → given i n r →
      RetryState.answered plan.limit n r = .pausing n →
      (s' = .stranded ∧ plan.pause i (n - 1) = none ∨ ∃ wake, s' = .pausing n wake) →
      Change plan given p (p.releaseSlot.put i s')
  | answerLast (i n : Nat) (r : Reply) (o : DeleteOutcome) : p.stages[i]? = some (.calling n) → given i n r →
      RetryState.answered plan.limit n r = .done o →
      Change plan given p (p.releaseSlot.settle i (disposition plan i o))

abbrev Changes (plan : PassPlan) (given : Nat → Nat → Reply → Prop) : Pass → Pass → Prop :=
  Relation.ReflTransGen (Change plan given)

variable {given : Nat → Nat → Reply → Prop}

/-- What every change keeps, sequences of changes keep. -/
theorem Changes.keeps {Q : Pass → Prop} (step : ∀ p q, Q p → Change plan given p q → Q q)
    (hc : Changes plan given p q) (h : Q p) : Q q := by
  induction hc with
  | refl => exact h
  | tail _ hc ih => exact step _ _ ih hc

/-- A deletion that seeks a token is idle. -/
theorem isIdle_of_seeksToken {s : Stage} (h : s.seeksToken = true) : s.isIdle = true := by
  cases s <;> simp_all [Stage.seeksToken, Stage.isIdle]

theorem Change.moves (hc : Change plan given p q) : Moves plan p q := by
  cases hc with
  | advance d => exact .single (.advance d)
  | cancel => exact .single .cancel
  | drop i s d hs hidle _ => exact .single (.settle i s d hs hidle)
  | token i s b hs _ hgoes hcancelled _ => exact .tail (.single (.refill b)) (.seekSlot i 1 s hs hgoes hcancelled)
  | noToken i s s' b taking hs _ hgoes _ _ hnew =>
    refine .tail (.single (.refill b)) ?_
    rcases hnew with ⟨rfl, -⟩ | ⟨wake, rfl⟩ <;> exact .put i s _ hs hgoes rfl rfl
  | begin i n hs => exact .single (.beginCall i n hs)
  | again i n wake hs hcancelled =>
    exact .single (.seekSlot i (n + 1) _ hs (by simp [Stage.goesOn, Stage.isIdle]) hcancelled)
  | answer i n r s' hs _ _ hnew =>
    rcases hnew with ⟨rfl, -⟩ | ⟨wake, rfl⟩ <;> exact .single (.answer i n _ hs rfl rfl)
  | answerLast i n r o hs _ _ => exact .single (.answerLast i n _ hs)

/-- The slots of a pass agree along its changes. -/
theorem SlotsAgree.change {total : Nat} (h : SlotsAgree total p) (hc : Change plan given p q) : SlotsAgree total q :=
  hc.moves.keeps (fun _ _ h hm => h.move hm) h

theorem seekToken_change {i : Nat} {s : Stage} (hs : p.stages[i]? = some s) (hseeks : s.seeksToken = true)
    (hgoes : s.goesOn plan = true) : Change plan given p (p.seekToken plan i) := by
  unfold seekToken
  split
  · rename_i hcancelled
    exact .drop i s .cancelled hs (Stage.isIdle_of_goesOn hgoes) (.inl ⟨hcancelled, rfl⟩)
  · rename_i hcancelled
    have hlive : p.cancelled = false := by simpa using hcancelled
    split
    · rename_i b hrequest
      have hattempt : { p with bucket := b }.attempt plan i 0 = { p with bucket := b }.seekSlot i 1 := by
        simp [attempt, RetryState.start, hlive]
      rw [hattempt]
      exact .token i s b hs hseeks hgoes hlive hrequest
    · rename_i b d hrequest
      exact .noToken i s _ b _ hs hseeks hgoes hrequest (by simp) (.inr ⟨_, rfl⟩)
    · rename_i b hrequest
      exact .noToken i s _ b _ hs hseeks hgoes hrequest (by simp) (.inl ⟨rfl, rfl⟩)

theorem resume_changes (p : Pass) (i : Nat) : Changes plan given p (p.resume plan i) := by
  unfold resume
  split
  · rename_i hs
    split
    · rename_i hcancelled
      exact .single (.drop i _ _ hs rfl (.inl ⟨hcancelled, rfl⟩))
    · split
      · rename_i hdry
        exact .single (.drop i _ _ hs rfl (.inr ⟨hdry, rfl, rfl⟩))
      · rename_i hdry
        exact .single (seekToken_change hs rfl (by simp [Stage.goesOn, Stage.isIdle, hdry]))
  · rename_i wake hs
    split
    · rename_i hcancelled
      exact .single (.drop i _ _ hs rfl (.inl ⟨hcancelled, rfl⟩))
    · split
      · exact .single (seekToken_change hs rfl (by simp [Stage.goesOn, Stage.isIdle]))
      · exact .refl
  · rename_i n hs
    exact .single (.begin i n hs)
  · rename_i n wake hs
    split
    · rename_i hcancelled
      exact .single (.drop i _ _ hs rfl (.inl ⟨hcancelled, rfl⟩))
    · rename_i hcancelled
      have hlive : p.cancelled = false := by simpa using hcancelled
      split
      · have hattempt : p.attempt plan i n = p.seekSlot i (n + 1) := by simp [attempt, RetryState.start, hlive]
        rw [hattempt]
        exact .single (.again i n wake hs hlive)
      · exact .refl
  · exact .refl

theorem reply_changes (p : Pass) (i : Nat) (r : Reply)
    (hgiven : ∀ n, p.stages[i]? = some (.calling n) → given i n r) : Changes plan given p (p.reply plan i r) := by
  unfold reply
  split
  · rename_i n hs
    obtain ⟨o, hanswered⟩ | hanswered := answered_cases plan.limit n r
    · simp only [hanswered]
      exact .single (.answerLast i n r o hs (hgiven n hs) hanswered)
    · simp only [hanswered]
      split
      · rename_i hpause
        exact .single (.answer i n r _ hs (hgiven n hs) hanswered (.inl ⟨rfl, hpause⟩))
      · exact .head (.answer i n r _ hs (hgiven n hs) hanswered (.inr ⟨_, rfl⟩)) (resume_changes _ i)
  · exact .refl

/-- Every event is a sequence of changes. -/
theorem step_changes (p : Pass) (ev : PassEvent)
    (hgiven : ∀ i r n, ev = .reply i r → p.stages[i]? = some (.calling n) → given i n r) :
    Changes plan given p (p.step plan ev) := by
  cases ev with
  | advance d => exact .single (.advance d)
  | cancel => exact .single .cancel
  | resume i => exact resume_changes p i
  | reply i r => exact reply_changes p i r fun n hs => hgiven i r n rfl hs

/-- Whatever the replies are, a run is a sequence of changes. -/
theorem run_changes (p : Pass) (events : List PassEvent) : Changes plan (fun _ _ _ => True) p (p.run plan events) := by
  induction events generalizing p with
  | nil => exact .refl
  | cons ev events ih => exact (step_changes p ev fun _ _ _ _ _ => trivial).trans (ih (p.step plan ev))

/-! ## §3 Numbers -/

/-- Every deletion has begun as many calls as its stage tells. -/
def Counted (p : Pass) : Prop := AtEach (fun i s => s.Counts (p.callsOf i)) p

theorem callsOf_beginCall (p : Pass) (i n j : Nat) :
    (p.beginCall i n).callsOf j = p.callsOf j + if i = j then 1 else 0 := by
  simp [callsOf, Pass.beginCall, List.countP_cons]

theorem Counted.beginCall (h : Counted p) {i n : Nat} (hn : n = p.callsOf i + 1) : Counted (p.beginCall i n) := by
  intro j s hs
  rw [callsOf_beginCall]
  rw [show (p.beginCall i n).stages = (p.put i (.calling n)).stages from rfl, getElem?_put] at hs
  split at hs
  · subst i
    obtain ⟨-, -, rfl⟩ := Option.map_eq_some_iff.mp hs
    simp [Stage.Counts, hn]
  · rename_i hij
    simpa [hij] using h j s hs

theorem Counted.seekSlot (h : Counted p) {i n : Nat} (hn : n = p.callsOf i + 1) : Counted (p.seekSlot i n) := by
  obtain ⟨-, heq⟩ | ⟨-, heq⟩ := seekSlot_cases p i n
  · rw [heq]
    exact Counted.beginCall (p := { p with free := p.free - 1 }) h hn
  · rw [heq]
    exact AtEach.put h hn

theorem Counted.releaseSlot (h : Counted p) : Counted p.releaseSlot := by
  have hcalls (i : Nat) : p.releaseSlot.callsOf i = p.callsOf i := by simp [callsOf]
  refine (AtEach.releaseSlot h fun i n hn => hn).mono fun i s hs => ?_
  rw [hcalls]
  exact hs

theorem Counted.change (h : Counted p) (hc : Change plan given p q) : Counted q := by
  cases hc with
  | advance d => exact h
  | cancel => exact h
  | drop i s d hs _ _ => exact AtEach.put h trivial
  | token i s b hs hseeks _ _ _ =>
    refine Counted.seekSlot (p := { p with bucket := b }) h ?_
    have hnone : p.callsOf i = 0 := by
      have hcount := h i s hs
      cases s <;> simp_all [Stage.seeksToken, Stage.Counts]
    simp [callsOf] at hnone ⊢
    exact hnone
  | noToken i s s' b taking hs hseeks _ _ _ hnew =>
    have hcount := h i s hs
    rcases hnew with ⟨rfl, -⟩ | ⟨wake, rfl⟩
    · exact AtEach.put h trivial
    · refine AtEach.put (p := { p with bucket := b }) h ?_
      cases s <;> simp_all [Stage.seeksToken, Stage.Counts]
  | begin i n hs => exact h.beginCall (h i _ hs)
  | again i n wake hs _ =>
    have hn : n = p.callsOf i ∧ 0 < p.callsOf i := h i _ hs
    exact h.seekSlot (by omega)
  | answer i n r s' hs _ _ hnew =>
    have hcalls : p.releaseSlot.callsOf i = p.callsOf i := by simp [callsOf]
    have hn : n = p.callsOf i ∧ 0 < p.callsOf i := h i _ hs
    rcases hnew with ⟨rfl, -⟩ | ⟨wake, rfl⟩
    · exact AtEach.put h.releaseSlot trivial
    · exact AtEach.put h.releaseSlot (show n = _ ∧ _ by rwa [hcalls])
  | answerLast i n r o hs _ _ => exact AtEach.put h.releaseSlot trivial

theorem counted_start (plan : PassPlan) (bucket : Bucket) (now : Duration) : Counted (start plan bucket now) := by
  intro i s hs
  simp only [start, Array.getElem?_map, Option.map_eq_some_iff] at hs
  obtain ⟨-, -, rfl⟩ := hs
  rfl

end Pass

end Reaper
