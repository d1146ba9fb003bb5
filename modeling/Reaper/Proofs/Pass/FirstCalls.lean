import Reaper.Proofs.Bucket.Level
import Reaper.Proofs.Pass.Changes

/-!
First calls, and the tokens they cost.

A deletion takes its token before it asks for the slot of its first call. Between the two it is pledged: the token is
spent, and nothing keeps the call from coming at any later moment. So the tokens bound the first calls and the pledged
deletions together, and not the first calls alone.

  §1 Steps  — what a change does to the stage of one deletion, whether a token is taken for it, and whether it begins its
              first call (`Change.effect`).
  §2 Books  — what the first calls of a pass, its stages and its bucket say about each other (`books_run`).
  §3 Stock  — first calls, pledged deletions and the level of the bucket together grow no faster than the rate
              (`Books.stock_run_le`).
  §4 Windows — a pass whose deletions fit into its slots and a full bucket keeps the rate in every window (`paced_run`,
              `Paced.firstsWithin_le`).
  §5 Dry runs — they begin no calls (`calls_of_dryRun`).
-/

namespace Reaper

namespace Stage

/-! ## §1 Steps -/

/-- The deletion has its token, and has yet to begin its first call. -/
def isPledged : Stage → Bool
  | awaitingSlot n | granted n => n == 1
  | _ => false

/-- The deletion can still begin its first call. -/
def isUnbegun : Stage → Bool
  | fresh | awaitingToken _ => true
  | s => s.isPledged

/-- The deletion has begun a call, and is not at its end. -/
def hasCalled : Stage → Bool
  | calling _ | pausing .. => true
  | awaitingSlot n | granted n => n != 1
  | _ => false

/-- The deletion makes no call any more. -/
def isOver : Stage → Bool
  | settled _ | stranded => true
  | _ => false

/-- The steps of a deletion: the first mark tells that a token is taken for it, the second that it begins its first
call. -/
inductive Step : Stage → Stage → Bool → Bool → Prop where
  | ends (s s' : Stage) : s.isIdle = true ∨ s.isCalling = true → s'.isOver = true → Step s s' false false
  | sleeps (s : Stage) (wake : Duration) : s.seeksToken = true → Step s (awaitingToken wake) false false
  | queues (s : Stage) : s.seeksToken = true → Step s (awaitingSlot 1) true false
  | calls (s : Stage) : s.seeksToken = true → Step s (calling 1) true true
  | begins (n : Nat) : Step (granted n) (calling n) false (n == 1)
  | pauses (n : Nat) (wake : Duration) : Step (calling n) (pausing n wake) false false
  | queuesAgain (n : Nat) (wake : Duration) : 0 < n → Step (pausing n wake) (awaitingSlot (n + 1)) false false
  | callsAgain (n : Nat) (wake : Duration) : 0 < n → Step (pausing n wake) (calling (n + 1)) false false

section Marks

variable {s s' : Stage} {token first : Bool}

theorem isUnbegun_of_seeksToken (h : s.seeksToken = true) : s.isUnbegun = true := by
  cases s <;> simp_all [seeksToken, isUnbegun]

theorem marks_of_isOver (h : s.isOver = true) : s.isUnbegun = false ∧ s.isPledged = false ∧ s.hasCalled = false := by
  cases s <;> simp_all [isOver, isUnbegun, isPledged, hasCalled]

/-- A first call is that of a deletion that could still begin one. -/
theorem Step.unbegun_le (h : Step s s' token first) : first.toNat + s'.isUnbegun.toNat ≤ s.isUnbegun.toNat := by
  cases h with
  | ends s s' _ hover => simp [(marks_of_isOver hover).1]
  | sleeps s wake hs | queues s hs | calls s hs =>
    rw [isUnbegun_of_seeksToken hs]
    exact Nat.le_refl 1
  | queuesAgain n wake hn => simp [isUnbegun, isPledged, hn.ne']
  | _ => simp [isUnbegun, isPledged]

/-- A first call needs a token now, or was pledged before. -/
theorem Step.pledged_le (h : Step s s' token first) :
    first.toNat + s'.isPledged.toNat ≤ s.isPledged.toNat + token.toNat := by
  cases h with
  | ends s s' _ hover => simp [(marks_of_isOver hover).2.1]
  | queuesAgain n wake hn => simp [isPledged, hn.ne']
  | queues | calls => simp [isPledged]
  | _ => simp [isPledged]

/-- A deletion comes to have called by its first call. -/
theorem Step.called_le (h : Step s s' token first) : s'.hasCalled.toNat ≤ s.hasCalled.toNat + first.toNat := by
  cases h with
  | ends s s' _ hover => simp [(marks_of_isOver hover).2.2]
  | begins n => cases h : n == 1 <;> simp [hasCalled, bne, h]
  | queuesAgain n wake hn => simp [hasCalled, Bool.toNat_le]
  | _ => simp [hasCalled]

end Marks

/-- What counts the stages of waiting for a slot and of having been handed one alike. -/
def IgnoresGrants (f : Stage → Bool) : Prop := ∀ n, f (granted n) = f (awaitingSlot n)

theorem ignoresGrants_isPledged : IgnoresGrants isPledged := fun _ => rfl

theorem ignoresGrants_isUnbegun : IgnoresGrants isUnbegun := fun _ => rfl

theorem ignoresGrants_hasCalled : IgnoresGrants hasCalled := fun _ => rfl

end Stage

namespace Pass

variable {plan : PassPlan} {given : Nat → Nat → Reply → Prop} {p q : Pass}

/-- The calls that are the first of their deletions, where the latest call stands first. -/
def firstsOf : List (Duration × Nat) → List (Duration × Nat)
  | [] => []
  | call :: earlier => if earlier.any (·.2 = call.2) then firstsOf earlier else call :: firstsOf earlier

/-- The first calls of the deletions of a pass. -/
def firsts (p : Pass) : List (Duration × Nat) := firstsOf p.calls

/-- How many deletions have begun their first call in a window of time. -/
def firstsWithin (opens closes : Duration) (p : Pass) : Nat := p.firsts.countP fun call => opens ≤ call.1 ∧ call.1 ≤ closes

/-- How many deletions have their token and have yet to begin their first call. -/
def pledged (p : Pass) : Nat := p.stages.countP Stage.isPledged

theorem mem_of_mem_firstsOf {calls : List (Duration × Nat)} {call : Duration × Nat} (h : call ∈ firstsOf calls) :
    call ∈ calls := by
  induction calls with
  | nil => exact h
  | cons c earlier ih =>
    unfold firstsOf at h
    split at h
    · exact List.mem_cons_of_mem _ (ih h)
    · rcases List.mem_cons.mp h with rfl | h
      · exact List.mem_cons_self
      · exact List.mem_cons_of_mem _ (ih h)

/-- The first call of a deletion is its call number one. -/
theorem firsts_beginCall {i n : Nat} (hn : n = p.callsOf i + 1) :
    (p.beginCall i n).firsts = (if n == 1 then [(p.now, i)] else []) ++ p.firsts := by
  have hnone : (p.calls.any fun call => decide (call.2 = i)) = true ↔ n ≠ 1 := by
    rw [hn, callsOf, List.any_eq_true, Ne, Nat.add_eq_right, ← Ne, ← Nat.pos_iff_ne_zero, List.countP_pos_iff]
  show firstsOf ((p.now, i) :: p.calls) = _
  rw [firstsOf]
  by_cases h : n = 1
  · rw [if_neg (by simpa using hnone.not.mpr (not_not.mpr h)), if_pos (by simpa using h)]
    rfl
  · rw [if_pos (hnone.mpr h), if_neg (by simpa using h)]
    rfl

/-- What a change does to the stages and the first calls of a pass: nothing, or what a step of one deletion does. The
marks are those of the step. -/
def Recount (p q : Pass) (token first : Bool) : Prop :=
  (q.stages = p.stages ∧ q.firsts = p.firsts ∧ token = false ∧ first = false) ∨
    ∃ i s s', p.stages[i]? = some s ∧ s.Step s' token first ∧
      (∀ f, Stage.IgnoresGrants f → q.stages.countP f + (f s).toNat = p.stages.countP f + (f s').toNat) ∧
      q.firsts = (if first then [(p.now, i)] else []) ++ p.firsts

/-- The bucket is left alone, or asked; the mark tells that it has given a token. -/
def Spend (plan : PassPlan) (p q : Pass) (token : Bool) : Prop :=
  (q.bucket = p.bucket ∧ token = false) ∨
    ∃ taking, p.bucket.request plan.round p.now = (q.bucket, taking) ∧ (token = true ↔ taking = .granted)

/-- Handing a slot on changes no count that ignores it. -/
theorem countP_releaseSlot {total : Nat} (h : SlotsAgree total p) {f : Stage → Bool} (hf : Stage.IgnoresGrants f) :
    p.releaseSlot.stages.countP f = p.stages.countP f := by
  obtain ⟨-, hrel⟩ | ⟨j, rest, m, -, hj, hrel⟩ := h.releaseSlot_cases
  · rw [hrel]
  · have hcount := countP_put f p (.granted m) hj
    rw [hf m] at hcount
    rw [hrel]
    exact Nat.add_right_cancel hcount

/-- The recount of a deletion that changes its stage and nothing else. -/
theorem Recount.put {i : Nat} {s s' : Stage} (hs : p.stages[i]? = some s) (hstep : s.Step s' false false) :
    Recount p (p.put i s') false false :=
  .inr ⟨i, s, s', hs, hstep, fun f _ => countP_put f p s' hs, rfl⟩

/-- The recount of a deletion that begins the call after those it has made. -/
theorem Recount.beginCall {i n : Nat} {s : Stage} {token : Bool} (hs : p.stages[i]? = some s)
    (hn : n = p.callsOf i + 1) (hstep : s.Step (.calling n) token (n == 1)) :
    Recount p (p.beginCall i n) token (n == 1) :=
  .inr ⟨i, s, _, hs, hstep, fun f _ => countP_put f p (.calling n) hs, firsts_beginCall hn⟩

/-- The recount of a deletion that asks for a slot: it begins its call, or waits. -/
theorem Recount.seekSlot {i n : Nat} {s : Stage} {token : Bool} (hs : p.stages[i]? = some s)
    (hn : n = p.callsOf i + 1) (hcalls : s.Step (.calling n) token (n == 1))
    (hqueues : s.Step (.awaitingSlot n) token false) : ∃ first, Recount p (p.seekSlot i n) token first := by
  obtain ⟨-, heq⟩ | ⟨-, heq⟩ := seekSlot_cases p i n
  · rw [heq]
    exact ⟨_, Recount.beginCall (p := { p with free := p.free - 1 }) hs hn hcalls⟩
  · rw [heq]
    exact ⟨false, .inr ⟨i, s, _, hs, hqueues, fun f _ => countP_put f p (.awaitingSlot n) hs, rfl⟩⟩

/-- The recount of a deletion whose call was answered. -/
theorem Recount.answer {total : Nat} (hagree : SlotsAgree total p) {i n : Nat} {s' : Stage}
    (hs : p.stages[i]? = some (.calling n)) (hstep : (Stage.calling n).Step s' false false) :
    Recount p (p.releaseSlot.put i s') false false := by
  refine .inr ⟨i, _, s', hs, hstep, fun f hf => ?_, ?_⟩
  · have hcount := countP_put f p.releaseSlot s' (hagree.getElem?_releaseSlot hs)
    rwa [countP_releaseSlot hagree hf] at hcount
  · simp [firsts, Pass.put]

/-- A change lets time go by and does nothing else, or is the step of at most one deletion at the present moment. -/
theorem Change.effect {total : Nat} (hagree : SlotsAgree total p) (hcounted : Counted p)
    (hc : Change plan given p q) :
    (∃ d : Duration, q = { p with now := ⟨p.now.nanos + d.nanos⟩ }) ∨
      q.now = p.now ∧ ∃ token first, Recount p q token first ∧ Spend plan p q token := by
  cases hc with
  | advance d => exact .inl ⟨d, rfl⟩
  | cancel => exact .inr ⟨rfl, false, false, .inl ⟨rfl, rfl, rfl, rfl⟩, .inl ⟨rfl, rfl⟩⟩
  | drop i s d hs hidle _ =>
    exact .inr ⟨rfl, false, false, .put hs (.ends s _ (.inl hidle) rfl), .inl ⟨rfl, rfl⟩⟩
  | token i s b hs hseeks _ _ hrequest =>
    have hnone : 1 = p.callsOf i + 1 := by
      have hcount := hcounted i s hs
      cases s <;> simp_all [Stage.seeksToken, Stage.Counts]
    obtain ⟨first, hrecount⟩ := Recount.seekSlot (p := { p with bucket := b }) hs hnone (.calls s hseeks)
      (.queues s hseeks)
    exact .inr ⟨(seekSlot_sameClock ..).1, true, first, hrecount, .inr ⟨Bucket.Taking.granted, by simp [hrequest], by simp⟩⟩
  | noToken i s s' b taking hs hseeks _ hrequest hdenied hnew =>
    refine .inr ⟨rfl, false, false, .put hs ?_, .inr ⟨taking, hrequest, by simp [hdenied]⟩⟩
    rcases hnew with ⟨rfl, -⟩ | ⟨wake, rfl⟩
    · exact .ends s _ (.inl (isIdle_of_seeksToken hseeks)) rfl
    · exact .sleeps s wake hseeks
  | begin i n hs => exact .inr ⟨rfl, false, _, .beginCall hs (hcounted i _ hs) (.begins n), .inl ⟨rfl, rfl⟩⟩
  | again i n wake hs _ =>
    have hn : n = p.callsOf i ∧ 0 < p.callsOf i := hcounted i _ hs
    have hlater : (n + 1 == 1) = false := by simp; omega
    have hcalls : (Stage.pausing n wake).Step (.calling (n + 1)) false (n + 1 == 1) :=
      hlater ▸ .callsAgain n wake (by omega)
    obtain ⟨first, hrecount⟩ := Recount.seekSlot hs (show n + 1 = _ by omega) hcalls (.queuesAgain n wake (by omega))
    exact .inr ⟨(seekSlot_sameClock ..).1, false, first, hrecount, .inl ⟨seekSlot_bucket .., rfl⟩⟩
  | answer i n r s' hs _ _ hnew =>
    refine .inr ⟨(releaseSlot_sameClock p).1, false, false, .answer hagree hs ?_, .inl ⟨releaseSlot_bucket p, rfl⟩⟩
    rcases hnew with ⟨rfl, -⟩ | ⟨wake, rfl⟩
    · exact .ends _ _ (.inr rfl) rfl
    · exact .pauses n wake
  | answerLast i n r o hs _ _ =>
    exact .inr ⟨(releaseSlot_sameClock p).1, false, false, .answer hagree hs (.ends _ _ (.inr rfl) rfl),
      .inl ⟨releaseSlot_bucket p, rfl⟩⟩

/-! ## §2 Books -/

/-- Nobody waits for a slot, or has been handed one without having begun the call. -/
def Calm (p : Pass) : Prop := p.queue = [] ∧ AtEach (fun _ s => s.isGranted = false) p

/-- What the first calls of a pass, its stages and its bucket say about each other. -/
structure Books (plan : PassPlan) (rate : Rat) (p : Pass) : Prop where
  agree : SlotsAgree plan.slots p
  counted : Counted p
  past : CallsPast p
  unbegun_le : p.firsts.length + p.stages.countP Stage.isUnbegun ≤ plan.deletions.size
  called_le : p.stages.countP Stage.hasCalled ≤ p.firsts.length
  /-- nobody waits for a slot before so many deletions have begun as there are slots -/
  slots_le : ¬ p.Calm → plan.slots ≤ p.firsts.length
  valid : p.bucket.Valid
  rate_eq : p.bucket.rate = rate

theorem Calm.put (h : p.Calm) {i : Nat} {s : Stage} (hs : s.isGranted = false) : (p.put i s).Calm :=
  ⟨h.1, h.2.put hs⟩

/-- A pass stays calm as long as it has a free slot. -/
theorem Calm.change (h : p.Calm) (hfree : 0 < p.free) (hc : Change plan given p q) : q.Calm := by
  have hseek (p : Pass) (h : p.Calm) (hfree : 0 < p.free) (i n : Nat) : (p.seekSlot i n).Calm := by
    obtain ⟨-, heq⟩ | ⟨hnone, -⟩ := seekSlot_cases p i n
    · rw [heq]
      exact h.put rfl
    · omega
  have hrelease : p.releaseSlot.Calm := by
    simp only [Pass.releaseSlot, h.1]
    exact ⟨rfl, h.2⟩
  cases hc with
  | advance d => exact h
  | cancel => exact h
  | drop i s d _ _ _ => exact h.put rfl
  | token i s b _ _ _ _ _ => exact hseek { p with bucket := b } h hfree i 1
  | noToken i s s' b taking _ _ _ _ _ hnew =>
    rcases hnew with ⟨rfl, -⟩ | ⟨wake, rfl⟩ <;> exact h.put rfl
  | begin i n _ => exact h.put rfl
  | again i n wake _ _ => exact hseek p h hfree i _
  | answer i n r s' _ _ _ hnew =>
    rcases hnew with ⟨rfl, -⟩ | ⟨wake, rfl⟩ <;> exact hrelease.put rfl
  | answerLast i n r o _ _ _ => exact hrelease.put rfl

/-- While a pass is calm, a slot is free or at work. -/
theorem SlotsAgree.le_free_add {total : Nat} (h : SlotsAgree total p) (hcalm : p.Calm) :
    total ≤ p.free + p.stages.countP Stage.hasCalled := by
  have hcalling : p.stages.countP Stage.holdsSlot ≤ p.stages.countP Stage.hasCalled := by
    refine Array.countP_mono_left fun s hs hholds => ?_
    obtain ⟨i, hi⟩ := Array.mem_iff_getElem?.mp hs
    have hgranted := hcalm.2 i s hi
    cases s <;> simp_all [Stage.holdsSlot, Stage.hasCalled, Stage.isGranted]
  have hslots := h.slots
  omega

variable {token first : Bool}

theorem Recount.length_firsts (h : Recount p q token first) : q.firsts.length = p.firsts.length + first.toNat := by
  obtain ⟨-, hfirsts, -, rfl⟩ | ⟨i, s, s', -, -, -, hfirsts⟩ := h
  · rw [hfirsts]
    rfl
  · rw [hfirsts, List.length_append, Nat.add_comm]
    cases first <;> rfl

variable {rate : Rat}

theorem Books.change (hround : plan.round = .exact) (h : Books plan rate p) (hc : Change plan given p q) :
    Books plan rate q := by
  have hagree : SlotsAgree plan.slots q := h.agree.change hc
  have hcounted : Counted q := h.counted.change hc
  have hpast : CallsPast q := hc.moves.keeps (fun _ _ h hm => h.move hm) h.past
  have hcalm (hq : ¬ q.Calm) : plan.slots ≤ p.firsts.length := by
    by_cases hp : p.Calm
    · have hfree : p.free = 0 := Nat.eq_zero_of_not_pos fun hfree => hq (hp.change hfree hc)
      have hatWork := h.agree.le_free_add hp
      have hcalled := h.called_le
      omega
    · exact h.slots_le hp
  obtain ⟨d, rfl⟩ | ⟨-, token, first, hrecount, hspend⟩ := hc.effect h.agree h.counted
  · exact ⟨hagree, hcounted, hpast, h.unbegun_le, h.called_le, hcalm, h.valid, h.rate_eq⟩
  · have hlength := hrecount.length_firsts
    have hunbegun : q.firsts.length + q.stages.countP Stage.isUnbegun ≤
        p.firsts.length + p.stages.countP Stage.isUnbegun := by
      obtain ⟨hstages, hfirsts, -, -⟩ | ⟨i, s, s', -, hstep, hcount, -⟩ := hrecount
      · rw [hstages, hfirsts]
      · have := hcount _ Stage.ignoresGrants_isUnbegun
        have := hstep.unbegun_le
        omega
    have hcalled : q.stages.countP Stage.hasCalled + p.firsts.length ≤
        p.stages.countP Stage.hasCalled + q.firsts.length := by
      obtain ⟨hstages, hfirsts, -, -⟩ | ⟨i, s, s', -, hstep, hcount, -⟩ := hrecount
      · rw [hstages, hfirsts]
      · have := hcount _ Stage.ignoresGrants_hasCalled
        have := hstep.called_le
        omega
    have hbucket : q.bucket.Valid ∧ q.bucket.rate = rate := by
      obtain ⟨heq, -⟩ | ⟨taking, hrequest, -⟩ := hspend
      · rw [heq]
        exact ⟨h.valid, h.rate_eq⟩
      · obtain ⟨hvalid, hrate, -⟩ := h.valid.request p.now
        rw [hround] at hrequest
        rw [hrequest] at hvalid hrate
        exact ⟨hvalid, hrate.trans h.rate_eq⟩
    have hle := h.unbegun_le
    have hle' := h.called_le
    exact ⟨hagree, hcounted, hpast, by omega, by omega, fun hq => Nat.le_trans (hcalm hq) (by omega), hbucket.1, hbucket.2⟩

theorem calm_start (plan : PassPlan) (bucket : Bucket) (now : Duration) : (start plan bucket now).Calm := by
  refine ⟨rfl, fun i s hs => ?_⟩
  simp only [start, Array.getElem?_map, Option.map_eq_some_iff] at hs
  obtain ⟨-, -, rfl⟩ := hs
  rfl

theorem books_start (plan : PassPlan) {bucket : Bucket} (hb : bucket.Valid) (now : Duration) :
    Books plan bucket.rate (start plan bucket now) where
  agree := slotsAgree_start plan bucket now
  counted := counted_start plan bucket now
  past := by simp [CallsPast, start]
  unbegun_le := by
    have hle : (start plan bucket now).stages.countP Stage.isUnbegun ≤ _ := Array.countP_le_size
    simpa [start, firsts, firstsOf] using hle
  called_le := by
    refine Nat.le_of_eq (Array.countP_eq_zero.mpr ?_)
    simp [start, Stage.hasCalled]
  slots_le hcrowded := absurd (calm_start plan bucket now) hcrowded
  valid := hb
  rate_eq := rfl

variable {bucket : Bucket}

theorem books_run (hround : plan.round = .exact) (hb : bucket.Valid) (now : Duration) (events : List PassEvent) :
    Books plan bucket.rate ((start plan bucket now).run plan events) :=
  (run_changes _ events).keeps (fun _ _ h hc => h.change hround hc) (books_start plan hb now)

/-- Whoever is pledged waits for a slot, or has been handed one. -/
theorem pledged_eq_zero {total : Nat} (hagree : SlotsAgree total p) (hcalm : p.Calm) : p.pledged = 0 := by
  refine Array.countP_eq_zero.mpr fun s hs hpledged => ?_
  obtain ⟨i, hi⟩ := Array.mem_iff_getElem?.mp hs
  obtain ⟨hqueue, hgranted⟩ := hcalm
  cases s with
  | awaitingSlot n =>
    have hmem : i ∈ p.queue := (hagree.mem_queue i).mpr (by simp [hi, Stage.awaitsSlot])
    simp [hqueue] at hmem
  | granted n => exact absurd (hgranted i _ hi) (by simp [Stage.isGranted])
  | _ => simp [Stage.isPledged] at hpledged

/-! ## §3 Stock -/

/-- The tokens of the bucket, those of pledged deletions, and those that first calls were begun with. -/
def stock (p : Pass) : Rat := p.firsts.length + p.pledged + p.bucket.level p.now

/-- At the present moment the stock does not grow: a token that leaves the bucket makes a deletion pledged, or is that of
a first call. -/
theorem Books.stock_le (hround : plan.round = .exact) (h : Books plan rate p) (hnow : q.now = p.now)
    (hrecount : Recount p q token first) (hspend : Spend plan p q token) : q.stock ≤ p.stock := by
  have htokens : q.firsts.length + q.pledged ≤ p.firsts.length + p.pledged + token.toNat := by
    have hlength := hrecount.length_firsts
    obtain ⟨hstages, hfirsts, -, -⟩ | ⟨i, s, s', -, hstep, hcount, -⟩ := hrecount
    · rw [pledged, hstages, hfirsts]
      exact Nat.le_add_right _ _
    · have := hcount _ Stage.ignoresGrants_isPledged
      have := hstep.pledged_le
      unfold pledged
      omega
  have hlevel : q.bucket.level p.now + token.toNat ≤ p.bucket.level p.now := by
    obtain ⟨heq, rfl⟩ | ⟨taking, hrequest, htoken⟩ := hspend
    · simp [heq]
    · obtain ⟨-, -, hlevel⟩ := h.valid.request p.now
      rw [hround] at hrequest
      rw [hrequest] at hlevel
      rw [← hlevel]
      cases token <;> simp_all
  have hcast : (q.firsts.length : Rat) + q.pledged ≤ p.firsts.length + p.pledged + token.toNat := by
    exact_mod_cast htokens
  unfold stock
  rw [hnow]
  linarith

/-- The stock grows no faster than the rate. -/
theorem Books.stock_change_le (hround : plan.round = .exact) (h : Books plan rate p) (hc : Change plan given p q) :
    p.now.nanos ≤ q.now.nanos ∧ q.stock ≤ p.stock + rate * p.now.secondsTo q.now := by
  obtain ⟨d, rfl⟩ | ⟨hnow, token, first, hrecount, hspend⟩ := hc.effect h.agree h.counted
  · refine ⟨Nat.le_add_right _ _, ?_⟩
    have hfill := h.valid.level_le_add p.now ⟨p.now.nanos + d.nanos⟩
    rw [h.rate_eq] at hfill
    simp only [stock, pledged, firsts]
    linarith
  · have hstock := h.stock_le hround hnow hrecount hspend
    refine ⟨Nat.le_of_eq (congrArg Duration.nanos hnow.symm), ?_⟩
    rw [hnow, Duration.secondsTo_self, mul_zero, add_zero]
    exact hstock

theorem Books.stock_run_le (hround : plan.round = .exact) (h : Books plan rate p) (events : List PassEvent) :
    (p.run plan events).stock ≤ p.stock + rate * p.now.secondsTo (p.run plan events).now := by
  have hkept : Books plan rate (p.run plan events) ∧ p.now.nanos ≤ (p.run plan events).now.nanos ∧
      (p.run plan events).stock ≤ p.stock + rate * p.now.secondsTo (p.run plan events).now := by
    refine (run_changes p events).keeps (Q := fun q => Books plan rate q ∧ p.now.nanos ≤ q.now.nanos ∧
      q.stock ≤ p.stock + rate * p.now.secondsTo q.now) ?_ ⟨h, Nat.le_refl _, by simp⟩
    rintro q r ⟨hq, hle, hstock⟩ hc
    obtain ⟨hle', hstock'⟩ := hq.stock_change_le hround hc
    refine ⟨hq.change hround hc, Nat.le_trans hle hle', ?_⟩
    rw [← Duration.secondsTo_add hle hle']
    linarith
  exact hkept.2.2

/-- Between two points of a run the first calls are at most the deletions that were pledged, a full bucket, and what the
rate brings. -/
theorem Books.length_firsts_run_le {rate : Rat} {p : Pass} (hround : plan.round = .exact) (h : Books plan rate p)
    (events : List PassEvent) :
    ((p.run plan events).firsts.length : Rat) ≤
      p.firsts.length + p.pledged + rate * p.now.secondsTo (p.run plan events).now + max rate 1 := by
  have hstock := h.stock_run_le hround events
  have hlater : Books plan rate (p.run plan events) :=
    (run_changes p events).keeps (fun _ _ h hc => h.change hround hc) h
  have hlevel := hlater.valid.level_nonneg (p.run plan events).now
  have hpledged : (0 : Rat) ≤ (p.run plan events).pledged := Nat.cast_nonneg _
  have hfull := h.valid.level_le p.now
  rw [Bucket.capacityOf_eq_max, h.rate_eq] at hfull
  unfold stock at hstock
  linarith

/-! ## §4 Windows -/

variable {opens closes : Duration}

/-- Where a pass stands in a window of time, and what it has made of its tokens in it. -/
inductive Paced (plan : PassPlan) (rate : Rat) (opens closes : Duration) (p : Pass) : Prop where
  | early : p.now < opens → Paced plan rate opens closes p
  /-- the window opened on a pass that had filled its slots -/
  | crowded : plan.slots ≤ p.firsts.countP (fun call => call.1 < opens) → Paced plan rate opens closes p
  | inside : opens ≤ p.now → p.now ≤ closes →
      p.firstsWithin opens closes + p.pledged + p.bucket.level p.now ≤ rate * opens.secondsTo p.now + max rate 1 →
      Paced plan rate opens closes p
  | closed : closes < p.now → p.firstsWithin opens closes ≤ rate * opens.secondsTo closes + max rate 1 →
      Paced plan rate opens closes p

theorem Books.rate_nonneg (h : Books plan rate p) : 0 ≤ rate := h.rate_eq ▸ h.valid.rate_pos.le

/-- First calls lie in the past. -/
theorem CallsPast.le_now (h : CallsPast p) {call : Duration × Nat} (hcall : call ∈ p.firsts) :
    call.1.nanos ≤ p.now.nanos :=
  h call (mem_of_mem_firstsOf hcall)

/-- A window that lies ahead is empty. -/
theorem CallsPast.firstsWithin_eq_zero (h : CallsPast p) (hearly : p.now < opens) :
    p.firstsWithin opens closes = 0 := by
  refine List.countP_eq_zero.mpr fun call hcall hin => ?_
  have hopened : opens.nanos ≤ call.1.nanos := (of_decide_eq_true hin).1
  exact absurd hearly (Nat.not_lt.mpr (Nat.le_trans hopened (h.le_now hcall)))

theorem Recount.exists_firsts_eq (h : Recount p q token first) :
    ∃ i, q.firsts = (if first then [(p.now, i)] else []) ++ p.firsts := by
  obtain ⟨-, hfirsts, -, rfl⟩ | ⟨i, s, s', -, -, -, hfirsts⟩ := h
  · exact ⟨0, hfirsts⟩
  · exact ⟨i, hfirsts⟩

/-- A first call adds to a window at most itself, and nothing to one that is over. -/
theorem Recount.firstsWithin_le (h : Recount p q token first) (opens closes : Duration) :
    q.firstsWithin opens closes ≤ p.firstsWithin opens closes + first.toNat ∧
      (closes < p.now → q.firstsWithin opens closes = p.firstsWithin opens closes) := by
  obtain ⟨i, hfirsts⟩ := h.exists_firsts_eq
  unfold firstsWithin
  rw [hfirsts]
  cases first with
  | false => simp
  | true =>
    simp only [if_true, List.cons_append, List.nil_append, List.countP_cons, Bool.toNat_true]
    refine ⟨by split <;> omega, fun hover => ?_⟩
    have hnot : ¬ p.now ≤ closes := Nat.not_le.mpr hover
    simp [hnot]

/-- When a window opens while nobody is pledged, what is called in it has to take its token in it. -/
theorem Paced.opened (hvalid : p.bucket.Valid) (hrate : p.bucket.rate = rate) (hpledged : p.pledged = 0)
    (hnone : p.firstsWithin opens closes = 0) (hopens : opens ≤ p.now) : Paced plan rate opens closes p := by
  have hlevel := hvalid.level_le p.now
  rw [Bucket.capacityOf_eq_max, hrate] at hlevel
  have hpos : 0 ≤ rate := hrate ▸ hvalid.rate_pos.le
  by_cases hcloses : p.now ≤ closes
  · refine .inside hopens hcloses ?_
    have hgain := mul_nonneg hpos (Duration.secondsTo_nonneg opens p.now)
    rw [hnone, hpledged]
    push_cast
    linarith
  · refine .closed (Nat.lt_of_not_le hcloses) ?_
    have hgain := mul_nonneg hpos (Duration.secondsTo_nonneg opens closes)
    have hcap : 0 ≤ max rate 1 := zero_le_one.trans (le_max_right ..)
    rw [hnone]
    push_cast
    linarith

/-- Time goes by: the window opens, or closes. -/
theorem Paced.advance (hb : Books plan rate p) (h : Paced plan rate opens closes p) (d : Duration) :
    Paced plan rate opens closes { p with now := ⟨p.now.nanos + d.nanos⟩ } := by
  let later : Duration := ⟨p.now.nanos + d.nanos⟩
  have hlater : p.now.nanos ≤ later.nanos := Nat.le_add_right _ _
  cases h with
  | early hearly =>
    by_cases hopen : later < opens
    · exact .early hopen
    have hopens : opens ≤ later := Nat.le_of_not_lt hopen
    by_cases hcalm : p.Calm
    · have hnone : p.firstsWithin opens closes = 0 := hb.past.firstsWithin_eq_zero hearly
      have hpledged := pledged_eq_zero hb.agree hcalm
      exact .opened (p := { p with now := later }) hb.valid hb.rate_eq hpledged hnone hopens
    · refine .crowded (Nat.le_trans (hb.slots_le hcalm) (Nat.le_of_eq ?_))
      refine (List.countP_eq_length.mpr fun call hcall => decide_eq_true ?_).symm
      exact Nat.lt_of_le_of_lt (hb.past.le_now hcall) hearly
  | crowded hslots => exact .crowded hslots
  | inside hopens hcloses hsum =>
    have hfill := hb.valid.level_le_add p.now later
    have hlevel := hb.valid.level_nonneg p.now
    have hpledged : (0 : Rat) ≤ p.pledged := Nat.cast_nonneg _
    rw [hb.rate_eq] at hfill
    by_cases hclose : later ≤ closes
    · refine .inside (Nat.le_trans hopens hlater) hclose ?_
      have hway := Duration.secondsTo_add hopens hlater
      show p.firstsWithin opens closes + p.pledged + p.bucket.level later ≤ rate * opens.secondsTo later + max rate 1
      rw [← hway]
      linarith
    · refine .closed (Nat.lt_of_not_le hclose) ?_
      have hway := mul_le_mul_of_nonneg_left (opens.secondsTo_mono hcloses) hb.rate_nonneg
      show p.firstsWithin opens closes ≤ rate * opens.secondsTo closes + max rate 1
      linarith
  | closed hclosed hsum => exact .closed (Nat.lt_of_lt_of_le hclosed hlater) hsum

theorem Paced.change (hround : plan.round = .exact) (hb : Books plan rate p) (h : Paced plan rate opens closes p)
    (hc : Change plan given p q) : Paced plan rate opens closes q := by
  obtain ⟨d, rfl⟩ | ⟨hnow, token, first, hrecount, hspend⟩ := hc.effect hb.agree hb.counted
  · exact h.advance hb d
  obtain ⟨hwithin, hafter⟩ := hrecount.firstsWithin_le opens closes
  cases h with
  | early hearly => exact .early (hnow ▸ hearly)
  | crowded hslots =>
    obtain ⟨i, hfirsts⟩ := hrecount.exists_firsts_eq
    refine .crowded (Nat.le_trans hslots ?_)
    rw [hfirsts, List.countP_append]
    exact Nat.le_add_left _ _
  | inside hopens hcloses hsum =>
    refine .inside (hnow ▸ hopens) (hnow ▸ hcloses) ?_
    have hstock := hb.stock_le hround hnow hrecount hspend
    have hlength : (q.firsts.length : Rat) = p.firsts.length + first.toNat := by exact_mod_cast hrecount.length_firsts
    have hwithin' : (q.firstsWithin opens closes : Rat) ≤ p.firstsWithin opens closes + first.toNat := by
      exact_mod_cast hwithin
    unfold stock at hstock
    rw [hnow] at hstock ⊢
    linarith
  | closed hclosed hsum =>
    refine .closed (hnow ▸ hclosed) ?_
    rwa [hafter hclosed]

/-- A pass that has no more deletions than slots and a full bucket allow keeps the rate in every window. -/
theorem Paced.firstsWithin_le (hb : Books plan rate p) (h : Paced plan rate opens closes p)
    (hsize : (plan.deletions.size : Rat) ≤ plan.slots + max rate 1) :
    p.firstsWithin opens closes ≤ rate * opens.secondsTo closes + max rate 1 := by
  have hgain := mul_nonneg hb.rate_nonneg (Duration.secondsTo_nonneg opens closes)
  have hcap : 0 ≤ max rate 1 := zero_le_one.trans (le_max_right ..)
  cases h with
  | early hearly =>
    rw [hb.past.firstsWithin_eq_zero hearly]
    push_cast
    linarith
  | crowded hslots =>
    -- those that filled the slots began before the window
    have hapart : p.firstsWithin opens closes + p.firsts.countP (fun call => call.1 < opens) ≤ p.firsts.length := by
      rw [List.length_eq_countP_add_countP (l := p.firsts) fun call => decide (call.1 < opens), Nat.add_comm]
      refine Nat.add_le_add_left (List.countP_mono_left fun call _ hin => ?_) _
      have hopened : opens.nanos ≤ call.1.nanos := (of_decide_eq_true hin).1
      exact decide_eq_true fun hlt => absurd (of_decide_eq_true hlt) (Nat.not_lt.mpr hopened)
    have hle := hb.unbegun_le
    have hrest : (p.firstsWithin opens closes : Rat) + plan.slots ≤ plan.deletions.size := by
      exact_mod_cast (by omega : p.firstsWithin opens closes + plan.slots ≤ plan.deletions.size)
    linarith
  | inside hopens hcloses hsum =>
    have hway := mul_le_mul_of_nonneg_left (opens.secondsTo_mono hcloses) hb.rate_nonneg
    have hlevel := hb.valid.level_nonneg p.now
    have hpledged : (0 : Rat) ≤ p.pledged := Nat.cast_nonneg _
    linarith
  | closed _ hsum => exact hsum

theorem paced_run (hround : plan.round = .exact) (hb : bucket.Valid) (now : Duration) (events : List PassEvent)
    (opens closes : Duration) : Paced plan bucket.rate opens closes ((start plan bucket now).run plan events) := by
  refine ((run_changes _ events).keeps
    (Q := fun p => Books plan bucket.rate p ∧ Paced plan bucket.rate opens closes p)
    (fun _ _ h hc => ⟨h.1.change hround hc, h.2.change hround h.1 hc⟩)
    ⟨books_start plan hb now, ?_⟩).2
  by_cases hopens : opens ≤ now
  · exact .opened hb rfl (pledged_eq_zero (slotsAgree_start plan bucket now) (calm_start plan bucket now)) rfl hopens
  · exact .early (Nat.lt_of_not_le hopens)

/-! ## §5 Dry runs -/

/-- A dry run makes no calls. -/
theorem calls_of_dryRun (hdry : plan.dryRun = true) (bucket : Bucket) (now : Duration) (events : List PassEvent) :
    ((start plan bucket now).run plan events).calls = [] := by
  have hkept : DryStages ((start plan bucket now).run plan events) ∧
      ((start plan bucket now).run plan events).calls = [] := by
    refine (run_moves _ events).keeps (P := fun p => DryStages p ∧ p.calls = []) ?_
      ⟨dryStages_run hdry bucket now [], rfl⟩
    rintro p q ⟨hstages, hcalls⟩ hm
    refine ⟨hstages.move hdry hm, ?_⟩
    cases hm with
    | seekSlot i n s hs hgoes _ => rcases hstages i s hs with rfl | ⟨d, rfl⟩ <;> simp_all [Stage.goesOn, Stage.isIdle]
    | beginCall i n hs => simpa using hstages i _ hs
    | answer i n s' hs _ _ => simpa using hstages i _ hs
    | answerLast i n d hs => simpa using hstages i _ hs
    | _ => exact hcalls
  exact hkept.2

end Pass

end Reaper
