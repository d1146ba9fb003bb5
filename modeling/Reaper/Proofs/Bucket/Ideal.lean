import Reaper.Proofs.Bucket.Window

/-!
The bucket that is counted now and then, and the ideal bucket, in exact arithmetic.

The level of an ideal bucket rises at every moment. It knows nothing of calls that failed: its past is the tokens that
it granted and the rates that it was given. A bucket that is brought up to date only when it is used holds at every
moment what the ideal one holds (`Bucket.Follows`), so that a limiter grants a token exactly when the ideal bucket has
one, calls that fail change nothing for the others, and of the tokens below the capacity none is lost (`run_ideal`).

  §1 Ideal buckets — their past, and their level at every moment.
  §2 Following     — what a bucket does that holds what an ideal one holds.
  §3 Runs          — calls side by side, and the ideal bucket that is asked the same.
  §4 Failed calls  — a run without them.
  §5 Losses        — only a full bucket loses what comes in.
-/

namespace Reaper

/-! ## §1 Ideal buckets -/

/-- What is asked of a bucket: a token, or to go on at another rate. -/
inductive Demand where
  | token
  | rate (rate : Rat)
  deriving DecidableEq, Repr

/-- An ideal bucket, by what has happened to it: it began full, and it granted tokens and was given rates. -/
inductive Ideal where
  | full (rate : Rat)
  | granted (before : Ideal) (now : Duration)
  | rated (before : Ideal) (now : Duration) (rate : Rat)
  deriving DecidableEq, Repr

namespace Ideal

/-- The rate in force. -/
def rate : Ideal → Rat
  | full rate => rate
  | granted before _ => before.rate
  | rated _ _ rate => rate

/-- What the bucket holds at a moment: the level rises at the rate in force up to the capacity, which is one second's
worth of tokens and at least one. A token takes one from the level, and a new rate cuts it to the new capacity. -/
def level : Ideal → Duration → Rat
  | full rate, _ => max rate 1
  | granted before t, now => min (before.level t - 1 + t.secondsTo now * before.rate) (max before.rate 1)
  | rated before t rate, now => min (min (before.level t) (max rate 1) + t.secondsTo now * rate) (max rate 1)

/-- The bucket after a demand. Without a token there is nothing to take, and a rate as good as the present one is no
other rate. -/
def meet (i : Ideal) (now : Duration) : Demand → Ideal
  | .token => if 1 ≤ i.level now then .granted i now else i
  | .rate q => if (i.rate - q).abs < Bucket.rateResolution then i else .rated i now q

theorem meet_token (i : Ideal) (now : Duration) :
    i.meet now .token = if 1 ≤ i.level now then .granted i now else i := rfl

theorem meet_rate (i : Ideal) (now : Duration) (q : Rat) :
    i.meet now (.rate q) = if (i.rate - q).abs < Bucket.rateResolution then i else .rated i now q := rfl

/-- The bucket after a call that may ask nothing of it. -/
def meet? (i : Ideal) (now : Duration) (demand : Option Demand) : Ideal := demand.elim i (i.meet now)

end Ideal

/-! ## §2 Following -/

namespace Bucket

open Rounding (exact)

variable {b c : Bucket} {i : Ideal} {since now : Duration} {q : Rat}

/-- From a moment on the bucket holds what the ideal one holds. -/
structure Follows (b : Bucket) (i : Ideal) (since : Duration) : Prop where
  valid : b.Valid
  past : b.lastRefill.nanos ≤ since.nanos
  rate_eq : b.rate = i.rate
  level_eq : ∀ now : Duration, since.nanos ≤ now.nanos → b.level now = i.level now

namespace Follows

theorem full (hq : 0 < q) (start : Duration) : (Bucket.full q start).Follows (.full q) start where
  valid := .full hq start
  past := Nat.le_refl _
  rate_eq := rfl
  level_eq now _ := by
    have hgained : 0 ≤ start.secondsTo now * q := mul_nonneg (Duration.secondsTo_nonneg ..) hq.le
    rw [Bucket.level_eq, Ideal.level, ← capacityOf_eq_max]
    exact min_eq_right (le_add_of_nonneg_right hgained)

theorem mono (h : b.Follows i since) (hnow : since.nanos ≤ now.nanos) : b.Follows i now :=
  ⟨h.valid, h.past.trans hnow, h.rate_eq, fun later hlater => h.level_eq later (hnow.trans hlater)⟩

/-- A bucket that was brought up to date and holds some tokens then follows what holds as many and rises at its rate. -/
theorem of_tokens (h : b.Valid) (hnow : b.lastRefill = now) (hrate : b.rate = i.rate)
    (hlevel : ∀ later, i.level later = min (b.tokens + now.secondsTo later * b.rate) (max b.rate 1)) :
    b.Follows i now where
  valid := h
  past := hnow ▸ Nat.le_refl _
  rate_eq := hrate
  level_eq later _ := by rw [Bucket.level_eq, hnow, h.capacity_eq, capacityOf_eq_max, hlevel]

/-- Bringing the bucket up to date makes no difference to it from then on. -/
theorem refill (h : b.Follows i since) (hnow : since.nanos ≤ now.nanos) : (b.refill exact now).Follows i now := by
  have hle := (h.valid.level_le now).trans_eq h.valid.capacity_eq.symm
  have hvalid := h.valid.holding (h.valid.level_nonneg now) hle now
  refine ⟨hvalid, Nat.le_refl _, h.rate_eq, fun later hlater => ?_⟩
  rw [← h.level_eq later (hnow.trans hlater), h.valid.level_later (h.past.trans hnow) hlater, refill_exact,
    Bucket.level_eq]

/-- A bucket that follows the ideal one grants a token exactly when that has one, and follows it afterwards. -/
theorem request (h : b.Follows i since) (hnow : since.nanos ≤ now.nanos) :
    (b.request exact now).1.Follows (i.meet now .token) now ∧
      ((b.request exact now).2 = .granted ↔ 1 ≤ i.level now) := by
  have hlevel := h.level_eq now hnow
  have hle := (h.valid.level_le now).trans_eq h.valid.capacity_eq.symm
  unfold Bucket.request
  rw [take_exact]
  by_cases hone : 1 ≤ i.level now
  · rw [if_pos (hlevel ▸ hone), Ideal.meet_token, if_pos hone]
    have hvalid := h.valid.holding (sub_nonneg.mpr (hlevel ▸ hone)) ((sub_le_self _ zero_le_one).trans hle) now
    refine ⟨of_tokens hvalid rfl h.rate_eq fun later => ?_, iff_of_true rfl hone⟩
    rw [Ideal.level, ← hlevel, ← h.rate_eq]
  · have hfollows := h.refill hnow
    rw [refill_exact] at hfollows
    rw [if_neg (hlevel ▸ hone), Ideal.meet_token, if_neg hone]
    dsimp only
    split <;> exact ⟨hfollows, iff_of_false nofun hone⟩

/-- Two buckets that follow the same ideal one answer alike. -/
theorem request_eq (h : b.Follows i since) (h' : c.Follows i since) (hnow : since.nanos ≤ now.nanos) :
    b.request exact now = c.request exact now := by
  have hrate : b.rate = c.rate := h.rate_eq.trans h'.rate_eq.symm
  have hlevel : b.level now = c.level now := (h.level_eq now hnow).trans (h'.level_eq now hnow).symm
  have hcapacity : b.capacity = c.capacity := by rw [h.valid.capacity_eq, h'.valid.capacity_eq, hrate]
  unfold Bucket.request
  rw [take_exact, take_exact, hrate, hlevel, hcapacity]

/-- A bucket that follows the ideal one takes a new rate as that does. -/
theorem setRate (h : b.Follows i since) (hnow : since.nanos ≤ now.nanos) (hq : 0 < q) :
    (b.setRate exact now q).Follows (i.meet now (.rate q)) now := by
  have hvalid := (h.valid.setRate hq now).1
  have hclose : (exact (b.rate - q)).abs = (i.rate - q).abs := by rw [h.rate_eq]; rfl
  unfold Bucket.setRate at hvalid ⊢
  rw [hclose] at hvalid ⊢
  rw [Ideal.meet_rate]
  split
  · exact h.mono hnow
  · rename_i hchanged
    rw [if_neg hchanged] at hvalid
    refine of_tokens hvalid rfl rfl fun later => ?_
    simp only [Ideal.level, refill_exact, kept_eq_min, capacityOf_eq_max, h.level_eq now hnow]

end Follows

end Bucket

/-! ## §3 Runs -/

namespace LimiterRun

open Rounding (exact)

variable {s r : LimiterRun} {i : Ideal} {since : Duration} {e : LimiterEvent} {events : List LimiterEvent}

/-- What the next task to go on asks of the bucket. A task that is cancelled, still asleep or at its end asks nothing,
nor does one with a rate that is none. -/
def demand? (s : LimiterRun) (e : LimiterEvent) : Option Demand :=
  match s.tasks[e.task]? with
  | some (.acquiring wake) => if e.cancelled ∨ e.now < wake then none else some .token
  | some .trying => some .token
  | some (.reconfiguring x) => (Bucket.rate? x).toOption.map .rate
  | some (.ended _) => none
  | none => none

/-- An ideal bucket that is asked what the tasks of a run ask. -/
def ideal (s : LimiterRun) (i : Ideal) : List LimiterEvent → Ideal
  | [] => i
  | e :: events => (s.step exact e).ideal (i.meet? e.now (s.demand? e)) events

/-- One call, by what it asks of the bucket. -/
theorem step_cases (s : LimiterRun) (e : LimiterEvent) :
    (s.demand? e = none ∧ (s.step exact e).bucket = s.bucket ∧ (s.step exact e).grants = s.grants) ∨
    (s.demand? e = some .token ∧ e.task < s.tasks.size ∧ ∃ later : Duration → LimiterTask,
      (∀ d, later d ≠ .ended .granted) ∧ s.step exact e = s.attempt exact e.task e.now later) ∨
    ∃ q, s.demand? e = some (.rate q) ∧ e.task < s.tasks.size ∧ 0 < q ∧ s.step exact e =
      LimiterRun.put { s with bucket := s.bucket.setRate exact e.now q } e.task (.ended .reconfigured) := by
  have hsize {t : LimiterTask} (h : s.tasks[e.task]? = some t) : e.task < s.tasks.size :=
    (Array.getElem?_eq_some_iff.mp h).1
  unfold demand? step
  rcases htask : s.tasks[e.task]? with _ | wake | _ | x | result <;> dsimp only
  · exact .inl ⟨rfl, rfl, rfl⟩
  · by_cases hcancelled : e.cancelled
    · rw [if_pos hcancelled, if_pos (.inl hcancelled)]
      exact .inl ⟨rfl, rfl, rfl⟩
    · by_cases hasleep : e.now < wake
      · rw [if_neg hcancelled, if_pos hasleep, if_pos (.inr hasleep)]
        exact .inl ⟨rfl, rfl, rfl⟩
      · rw [if_neg hcancelled, if_neg hasleep, if_neg (not_or.mpr ⟨hcancelled, hasleep⟩)]
        exact .inr (.inl ⟨rfl, hsize htask, fun d => .acquiring (e.now.sleepEnd d), fun _ => nofun, rfl⟩)
  · exact .inr (.inl ⟨rfl, hsize htask, fun _ => .ended .missed, fun _ => nofun, rfl⟩)
  · rcases hq : Bucket.rate? x with error | q
    · exact .inl ⟨rfl, rfl, rfl⟩
    · exact .inr (.inr ⟨q, rfl, hsize htask, Bucket.pos_of_rate? hq, rfl⟩)
  · exact .inl ⟨rfl, rfl, rfl⟩

theorem getElem?_put (s : LimiterRun) {k : Nat} (hk : k < s.tasks.size) (t : LimiterTask) :
    (s.put k t).tasks[k]? = some t := Array.getElem?_setIfInBounds_self_of_lt hk

/-- A task that asks for a token is granted one exactly when the ideal bucket has one. -/
theorem follows_attempt (h : s.bucket.Follows i since) {now : Duration} (hnow : since.nanos ≤ now.nanos) {k : Nat}
    (hk : k < s.tasks.size) {later : Duration → LimiterTask} (hlater : ∀ d, later d ≠ .ended .granted) :
    let s' := s.attempt exact k now later
    s'.bucket.Follows (i.meet now .token) now ∧
      s'.grants = (if 1 ≤ i.level now then now :: s.grants else s.grants) ∧
      (s'.tasks[k]? = some (.ended .granted) ↔ 1 ≤ i.level now) := by
  obtain ⟨hfollows, hgranted⟩ := h.request hnow
  unfold attempt
  rcases hasked : s.bucket.request exact now with ⟨b, _ | d | _⟩ <;> rw [hasked] at hfollows hgranted
  · have hone := hgranted.mp rfl
    exact ⟨hfollows, (if_pos hone).symm, iff_of_true (getElem?_put _ hk _) hone⟩
  · have hone : ¬ 1 ≤ i.level now := fun hone => nomatch hgranted.mpr hone
    refine ⟨hfollows, (if_neg hone).symm, iff_of_false (fun hended => ?_) hone⟩
    exact hlater d (Option.some.inj ((getElem?_put _ hk _).symm.trans hended))
  · have hone : ¬ 1 ≤ i.level now := fun hone => nomatch hgranted.mpr hone
    refine ⟨hfollows, (if_neg hone).symm, iff_of_false (fun hended => ?_) hone⟩
    exact nomatch (getElem?_put _ hk _).symm.trans hended

/-- One call does to the bucket what it does to the ideal one, and grants what that grants. -/
theorem follows_step (h : s.bucket.Follows i since) (hnow : since.nanos ≤ e.now.nanos) :
    (s.step exact e).bucket.Follows (i.meet? e.now (s.demand? e)) e.now ∧
      (s.step exact e).grants =
        (if s.demand? e = some .token ∧ 1 ≤ i.level e.now then e.now :: s.grants else s.grants) ∧
      (s.demand? e = some .token →
        ((s.step exact e).tasks[e.task]? = some (.ended .granted) ↔ 1 ≤ i.level e.now)) := by
  rcases step_cases s e with ⟨hask, hbucket, hgrants⟩ | ⟨hask, hk, later, hlater, hstep⟩ | ⟨q, hask, hk, hq, hstep⟩
  · rw [hask, hbucket, hgrants]
    exact ⟨h.mono hnow, (if_neg fun hboth => nomatch hboth.1).symm, nofun⟩
  · obtain ⟨hfollows, hgrants, hended⟩ := follows_attempt h hnow hk hlater
    rw [hask, hstep]
    exact ⟨hfollows, by simpa using hgrants, fun _ => hended⟩
  · rw [hask, hstep]
    exact ⟨h.setRate hnow hq, (if_neg fun hboth => nomatch hboth.1).symm, nofun⟩

/-- Along a run the bucket follows the ideal one that is asked the same. -/
theorem follows_run (h : s.bucket.Follows i since) (ho : InOrder events)
    (hsince : ∀ e ∈ events, since.nanos ≤ e.now.nanos) {now : Duration} (hnow : since.nanos ≤ now.nanos)
    (hlast : ∀ e ∈ events, e.now.nanos ≤ now.nanos) :
    (s.run exact events).bucket.Follows (s.ideal i events) now := by
  induction events generalizing s i since with
  | nil => exact h.mono hnow
  | cons e events ih =>
    obtain ⟨hfirst, hlater⟩ := List.pairwise_cons.mp ho
    obtain ⟨hfollows, -, -⟩ := follows_step h (hsince e (List.mem_cons_self ..))
    obtain ⟨he, hrest⟩ := List.forall_mem_cons.mp hlast
    exact ih hfollows hlater hfirst he hrest

/-! ## §4 Failed calls -/

theorem tasks_step_of_ne (s : LimiterRun) (e : LimiterEvent) {k : Nat} (hk : e.task ≠ k) :
    (s.step exact e).tasks[k]? = s.tasks[k]? := by
  have hput (s : LimiterRun) (t : LimiterTask) : (s.put e.task t).tasks[k]? = s.tasks[k]? :=
    Array.getElem?_setIfInBounds_ne hk
  have hattempt (later : Duration → LimiterTask) : (s.attempt exact e.task e.now later).tasks[k]? = s.tasks[k]? := by
    unfold attempt
    split <;> exact hput _ _
  unfold step
  split
  · split
    · exact hput _ _
    · split
      · rfl
      · exact hattempt _
  · exact hattempt _
  · split <;> exact hput _ _
  · rfl
  · rfl

/-- A call that is at its end stays there. -/
theorem ended_run {k : Nat} {result : LimiterResult} (h : s.tasks[k]? = some (.ended result))
    (events : List LimiterEvent) : (s.run exact events).tasks[k]? = some (.ended result) := by
  induction events generalizing s with
  | nil => exact h
  | cons e events ih =>
    refine ih ?_
    by_cases hk : e.task = k
    · have hsame : s.step exact e = s := by
        unfold step
        rw [hk, h]
      rw [hsame, h]
    · rw [tasks_step_of_ne s e hk, h]

/-- How a task goes on is a matter of the task and of what the bucket answers. -/
theorem task_step_eq (htask : r.tasks[e.task]? = s.tasks[e.task]?)
    (hasked : r.bucket.request exact e.now = s.bucket.request exact e.now) :
    (r.step exact e).tasks[e.task]? = (s.step exact e).tasks[e.task]? := by
  have hput (t : LimiterTask) :
      (r.tasks.setIfInBounds e.task t)[e.task]? = (s.tasks.setIfInBounds e.task t)[e.task]? := by
    have hsize : e.task < r.tasks.size ↔ e.task < s.tasks.size := by
      rw [← not_iff_not, not_lt, not_lt, ← Array.getElem?_eq_none_iff, ← Array.getElem?_eq_none_iff, htask]
    simp only [Array.getElem?_setIfInBounds_self, hsize]
  have hattempt (later : Duration → LimiterTask) :
      (r.attempt exact e.task e.now later).tasks[e.task]? = (s.attempt exact e.task e.now later).tasks[e.task]? := by
    unfold attempt
    rw [hasked]
    split <;> exact hput _
  unfold step
  rw [htask]
  split
  · split
    · exact hput _
    · split
      · exact htask
      · exact hattempt _
  · exact hattempt _
  · split <;> exact hput _
  · exact htask
  · exact htask

/-- A call that does not succeed leaves the ideal bucket alone, and grants nothing. -/
theorem step_of_failed (h : s.bucket.Follows i since) (hnow : since.nanos ≤ e.now.nanos)
    (hgranted : (s.step exact e).tasks[e.task]? ≠ some (.ended .granted))
    (hrated : (s.step exact e).tasks[e.task]? ≠ some (.ended .reconfigured)) :
    (s.step exact e).bucket.Follows i e.now ∧ (s.step exact e).grants = s.grants := by
  obtain ⟨hfollows, hgrants, hended⟩ := follows_step h hnow
  rcases hask : s.demand? e with _ | _ | q <;> rw [hask] at hfollows hgrants hended
  · exact ⟨hfollows, by simpa using hgrants⟩
  · have hone : ¬ 1 ≤ i.level e.now := fun hone => hgranted ((hended rfl).mpr hone)
    have hsame : i.meet? e.now (some .token) = i := if_neg hone
    rw [hsame] at hfollows
    exact ⟨hfollows, hgrants.trans (if_neg fun hboth => hone hboth.2)⟩
  · rcases step_cases s e with ⟨hnone, -⟩ | ⟨htoken, -⟩ | ⟨q, -, hk, -, hstep⟩
    · exact nomatch hask.symm.trans hnone
    · exact nomatch hask.symm.trans htoken
    · rw [hstep] at hrated
      exact absurd (getElem?_put _ hk _) hrated

/-- A run without the steps of some tasks that do not succeed goes on as the run with them does. -/
theorem run_without (h : s.bucket.Follows i since) (h' : r.bucket.Follows i since) (hgrants : r.grants = s.grants)
    {failed : Nat → Bool} (htasks : ∀ k, failed k = false → r.tasks[k]? = s.tasks[k]?) (ho : InOrder events)
    (hsince : ∀ e ∈ events, since.nanos ≤ e.now.nanos)
    (hfailed : ∀ k, failed k = true → (s.run exact events).tasks[k]? ≠ some (.ended .granted) ∧
      (s.run exact events).tasks[k]? ≠ some (.ended .reconfigured)) :
    let s' := s.run exact events
    let r' := r.run exact (events.filter fun e => !failed e.task)
    r'.grants = s'.grants ∧ (∀ k, failed k = false → r'.tasks[k]? = s'.tasks[k]?) ∧
      ∀ now : Duration, since.nanos ≤ now.nanos → (∀ e ∈ events, e.now.nanos ≤ now.nanos) →
        ∃ j, s'.bucket.Follows j now ∧ r'.bucket.Follows j now := by
  induction events generalizing s r i since with
  | nil => exact ⟨hgrants, htasks, fun now hnow _ => ⟨i, h.mono hnow, h'.mono hnow⟩⟩
  | cons e events ih =>
    obtain ⟨hfirst, hlater⟩ := List.pairwise_cons.mp ho
    have hnow := hsince e (List.mem_cons_self ..)
    have hrest (now : Duration) (hall : ∀ e' ∈ e :: events, e'.now.nanos ≤ now.nanos) :=
      List.forall_mem_cons.mp hall
    by_cases hfail : failed e.task = true
    · -- the step is left out, and would have changed nothing
      have hstays (result : LimiterResult) (hend : (s.step exact e).tasks[e.task]? = some (.ended result)) :
          (s.run exact (e :: events)).tasks[e.task]? = some (.ended result) := ended_run hend events
      obtain ⟨hgranted, hrated⟩ := hfailed e.task hfail
      obtain ⟨hfollows, hsame⟩ :=
        step_of_failed h hnow (fun hend => hgranted (hstays _ hend)) fun hend => hrated (hstays _ hend)
      have hothers (k : Nat) (hk : failed k = false) : r.tasks[k]? = (s.step exact e).tasks[k]? := by
        have hne : e.task ≠ k := fun heq => by rw [heq, hk] at hfail; cases hfail
        rw [htasks k hk, tasks_step_of_ne s e hne]
      obtain ⟨hgrants', htasks', hlevels⟩ :=
        ih hfollows (h'.mono hnow) (hgrants.trans hsame.symm) hothers hlater hfirst hfailed
      rw [List.filter_cons_of_neg (by simp [hfail])]
      exact ⟨hgrants', htasks', fun now _ hall => hlevels now (hrest now hall).1 (hrest now hall).2⟩
    · have hkept : failed e.task = false := Bool.eq_false_iff.mpr hfail
      have htask := htasks e.task hkept
      have hask : r.demand? e = s.demand? e := by unfold demand?; rw [htask]
      obtain ⟨hfollows, hgrant, -⟩ := follows_step h hnow
      obtain ⟨hfollows', hgrant', -⟩ := follows_step h' hnow
      rw [hask] at hfollows' hgrant'
      have hsame : (r.step exact e).grants = (s.step exact e).grants := by rw [hgrant, hgrant', hgrants]
      have hothers (k : Nat) (hk : failed k = false) : (r.step exact e).tasks[k]? = (s.step exact e).tasks[k]? := by
        by_cases heq : e.task = k
        · rw [← heq]
          exact task_step_eq htask (h'.request_eq h hnow)
        · rw [tasks_step_of_ne r e heq, tasks_step_of_ne s e heq, htasks k hk]
      obtain ⟨hgrants', htasks', hlevels⟩ := ih hfollows hfollows' hsame hothers hlater hfirst hfailed
      rw [List.filter_cons_of_pos (by simp [hkept])]
      exact ⟨hgrants', htasks', fun now _ hall => hlevels now (hrest now hall).1 (hrest now hall).2⟩

/-! ## §5 Losses -/

/-- A call loses nothing, unless it leaves the bucket full. -/
theorem stock_step (h : s.bucket.Valid) (e : LimiterEvent) :
    (s.step exact e).stock e.now = s.stock e.now ∨
      (s.step exact e).bucket.level e.now = (s.step exact e).bucket.capacity := by
  rcases step_cases s e with ⟨-, hbucket, hgrants⟩ | ⟨-, -, later, -, hstep⟩ | ⟨q, -, -, hq, hstep⟩
  · exact .inl (by rw [stock, stock, hbucket, hgrants])
  · exact .inl (by rw [hstep]; exact (attempt_valid h ..).2)
  · obtain ⟨-, hlevel⟩ := h.setRate hq e.now
    rw [hstep]
    rcases min_choice (s.bucket.level e.now) (s.bucket.setRate exact e.now q).capacity with hmin | hmin <;>
      rw [hmin] at hlevel
    · exact .inl (by rw [stock, stock]; exact congrArg _ hlevel)
    · exact .inr hlevel

/-- The bucket has been full at a moment of the run, and nothing that came in since then is lost. -/
def KeepsSinceFull (s : LimiterRun) (events : List LimiterEvent) (opens closes : Duration) : Prop :=
  ∃ before after, ∃ full : Duration, events = before ++ after ∧ opens.nanos ≤ full.nanos ∧ full.nanos ≤ closes.nanos ∧
    (∀ e ∈ before, e.now.nanos ≤ full.nanos) ∧ (∀ e ∈ after, full.nanos ≤ e.now.nanos) ∧
    (s.run exact before).bucket.level full = max (s.run exact before).bucket.rate 1 ∧
    (s.run exact events).stock closes =
      (s.run exact before).stock full + (s.run exact before).inflow after full closes

theorem inflow_self (s : LimiterRun) (events : List LimiterEvent) (now : Duration) : s.inflow events now now = 0 := by
  rw [inflow, Finset.Ico_self, Finset.sum_empty]

/-- While nobody calls, the level rises with the rate, or has come to the capacity. -/
theorem stock_later (h : s.bucket.Follows i since) {now : Duration} (hnow : since.nanos ≤ now.nanos) :
    s.stock now = s.stock since + since.secondsTo now * s.bucket.rate ∨
      s.bucket.level now = max s.bucket.rate 1 := by
  have hlevel := h.valid.level_later h.past hnow
  rw [h.valid.capacity_eq, Bucket.capacityOf_eq_max] at hlevel
  rcases min_choice (s.bucket.level since + since.secondsTo now * s.bucket.rate) (max s.bucket.rate 1) with hmin | hmin
    <;> rw [hmin] at hlevel
  · exact .inl (by rw [stock, stock, hlevel, add_assoc])
  · exact .inr hlevel

/-- What comes in is lost only while the bucket is full. -/
theorem stock_run {opens closes : Duration} (h : s.bucket.Follows i opens) (ho : InOrder events)
    (hwindow : opens.nanos ≤ closes.nanos)
    (hin : ∀ e ∈ events, opens.nanos ≤ e.now.nanos ∧ e.now.nanos ≤ closes.nanos) :
    (s.run exact events).stock closes = s.stock opens + s.inflow events opens closes ∨
      s.KeepsSinceFull events opens closes := by
  induction events generalizing s i opens with
  | nil =>
    refine (stock_later h hwindow).imp (fun hsame => ?_) fun hfull => ?_
    · rw [inflow_nil]
      exact hsame
    · refine ⟨[], [], closes, rfl, hwindow, Nat.le_refl _, nofun, nofun, hfull, ?_⟩
      rw [inflow_self, add_zero]
  | cons e events ih =>
    obtain ⟨⟨hopens, hcloses⟩, hrest⟩ := List.forall_mem_cons.mp hin
    obtain ⟨hfirst, hlater⟩ := List.pairwise_cons.mp ho
    obtain ⟨hfollows, -, -⟩ := follows_step h hopens
    have hinflow := inflow_cons (s := s) ho hopens hcloses
    rw [run_cons]
    rcases ih hfollows hlater hcloses fun e' he' => ⟨hfirst e' he', (hrest e' he').2⟩ with
      hkept | ⟨before, after, full, rfl, hfull, hends, hbefore, hafter, hlevel, hstock⟩
    · rcases stock_step h.valid e with hstep | hstep
      · rcases stock_later h hopens with hsame | hfull
        · exact .inl (by rw [hkept, hstep, hsame, hinflow, add_assoc])
        · -- the bucket was full when the call came
          refine .inr ⟨[], e :: events, e.now, rfl, hopens, hcloses, nofun, ?_, hfull, ?_⟩
          · exact List.forall_mem_cons.mpr ⟨Nat.le_refl _, hfirst⟩
          · show _ = s.stock e.now + s.inflow (e :: events) e.now closes
            rw [run_cons, hkept, hstep, inflow_cons ho (Nat.le_refl _) hcloses, Duration.secondsTo_self, zero_mul,
              zero_add]
      · -- the call has left the bucket full
        refine .inr ⟨[e], events, e.now, rfl, hopens, hcloses, by simp, hfirst, ?_, hkept⟩
        rw [hfollows.valid.capacity_eq, Bucket.capacityOf_eq_max] at hstep
        exact hstep
    · refine .inr ⟨e :: before, after, full, rfl, hopens.trans hfull, hends, ?_, hafter, hlevel, hstock⟩
      exact List.forall_mem_cons.mpr ⟨hfull, hbefore⟩

/-- In exact arithmetic a limiter is as good as an ideal bucket that is asked the same. At every moment it holds what
that holds, and it grants a token exactly when that has one. Since some moment at which the bucket was full, all that
has come in has been granted or is still there. And calls that do not succeed change nothing: without them the other
calls end as they do with them. -/
theorem run_ideal {rate : Rat} (hrate : 0 < rate) (start : Duration) (tasks : Array LimiterTask)
    (ho : InOrder events) (hstart : ∀ e ∈ events, start.nanos ≤ e.now.nanos) :
    let s := begin rate start tasks
    let ideal := s.ideal (.full rate)
    (∀ before e, (before ++ [e]) <+: events →
      let r := s.run exact before
      let r' := s.run exact (before ++ [e])
      r'.grants = (if r.demand? e = some .token ∧ 1 ≤ (ideal before).level e.now then e.now :: r.grants else r.grants) ∧
      (r.demand? e = some .token →
        (r'.tasks[e.task]? = some (.ended .granted) ↔ 1 ≤ (ideal before).level e.now))) ∧
    (∀ now : Duration, start.nanos ≤ now.nanos → (∀ e ∈ events, e.now.nanos ≤ now.nanos) →
      (s.run exact events).bucket.level now = (ideal events).level now ∧ s.KeepsSinceFull events start now ∧
      ∀ later : Duration, now.nanos ≤ later.nanos → (ideal events).level later =
        min ((ideal events).level now + now.secondsTo later * (ideal events).rate) (max (ideal events).rate 1)) ∧
    ∀ failed : Nat → Bool,
      (∀ k, failed k = true → (s.run exact events).tasks[k]? ≠ some (.ended .granted) ∧
        (s.run exact events).tasks[k]? ≠ some (.ended .reconfigured)) →
      let r := s.run exact (events.filter fun e => !failed e.task)
      r.grants = (s.run exact events).grants ∧
      (∀ k, failed k = false → r.tasks[k]? = (s.run exact events).tasks[k]?) ∧
      ∀ now : Duration, start.nanos ≤ now.nanos → (∀ e ∈ events, e.now.nanos ≤ now.nanos) →
        r.bucket.level now = (s.run exact events).bucket.level now := by
  intro s ideal
  have hbegin : s.bucket.Follows (.full rate) start := .full hrate start
  refine ⟨fun before e hcut => ?_, fun now hnow hlast => ?_, fun failed hfailed => ?_⟩
  · obtain ⟨hbefore, -, he⟩ := List.pairwise_append.mp (ho.sublist hcut.sublist)
    have hsince (e' : LimiterEvent) (he' : e' ∈ before ++ [e]) := hstart e' (hcut.subset he')
    have hnow : start.nanos ≤ e.now.nanos := hsince e (by simp)
    have hfollows := follows_run hbegin hbefore (fun e' he' => hsince e' (List.mem_append_left _ he')) hnow
      fun e' he' => he e' he' e (by simp)
    rw [run_append]
    exact (follows_step hfollows (Nat.le_refl _)).2
  · have hfollows := follows_run hbegin ho hstart hnow hlast
    have hlevel := hfollows.level_eq now (Nat.le_refl _)
    refine ⟨hlevel, ?_, fun later hlater => ?_⟩
    · rcases stock_run hbegin ho hnow fun e he => ⟨hstart e he, hlast e he⟩ with hkept | hfull
      · have hfull : s.bucket.level start = max rate 1 := by
          rw [hbegin.level_eq start (Nat.le_refl _)]
          rfl
        exact ⟨[], events, start, rfl, Nat.le_refl _, hnow, nofun, hstart, hfull, hkept⟩
      · exact hfull
    · have hlater' := hfollows.valid.level_later hfollows.past hlater
      rw [hfollows.level_eq later hlater, hlevel, hfollows.rate_eq, hfollows.valid.capacity_eq,
        Bucket.capacityOf_eq_max, hfollows.rate_eq] at hlater'
      exact hlater'
  · obtain ⟨hgrants, htasks, hlevels⟩ :=
      run_without hbegin hbegin rfl (fun k (_ : failed k = false) => rfl) ho hstart hfailed
    refine ⟨hgrants, htasks, fun now hnow hlast => ?_⟩
    obtain ⟨i, hs, hr⟩ := hlevels now hnow hlast
    exact (hr.level_eq now (Nat.le_refl _)).trans (hs.level_eq now (Nat.le_refl _)).symm

/-- Five tasks try for a token and one acquires one, at two tokens a second that become one. The last call asks for a
rate that is as good as that. -/
def pollers : Array LimiterTask :=
  #[.trying, .trying, .acquiring .zero, .trying, .reconfiguring (.finite 1), .trying, .trying,
    .reconfiguring (.finite (1 + 1 / 2 ^ 53))]

/-- The first two tries empty the bucket. Nobody finds a token until half of one has come in at the old rate and half of
one at the new rate. -/
def polls : List LimiterEvent :=
  [⟨0, .zero, false⟩, ⟨1, .zero, false⟩, ⟨2, .zero, false⟩, ⟨3, .ofMillis 250, false⟩, ⟨4, .ofMillis 250, false⟩,
    ⟨2, .ofMillis 400, true⟩, ⟨5, .ofMillis 700, false⟩, ⟨7, .ofMillis 700, false⟩, ⟨6, .ofMillis 750, false⟩]

/-- The last try gets the token at the moment at which the ideal bucket has one, with or without the tries before it
that failed and the wait that was cancelled. -/
theorem polled_at_full_token :
    let s := begin 2 .zero pollers
    let without := polls.filter fun e => !(e.task == 2 || e.task == 3 || e.task == 5)
    InOrder polls ∧ (s.run exact polls).tasks[2]? = some (.ended (.failed .cancelled)) ∧
    (s.ideal (.full 2) (polls.take 8)).level (.ofMillis 750) = 1 ∧
    (s.run exact polls).tasks[6]? = some (.ended .granted) ∧
    (s.run exact polls).grants = [.ofMillis 750, .zero, .zero] ∧
    (s.run exact without).grants = [.ofMillis 750, .zero, .zero] := by
  intro s without
  have ho : InOrder polls := by decide +kernel
  obtain ⟨hgranted, -, hwithout⟩ := run_ideal two_pos .zero pollers ho fun _ _ => Nat.zero_le _
  obtain ⟨hgrants, hended⟩ := hgranted (polls.take 8) ⟨6, .ofMillis 750, false⟩ (by decide +kernel)
  have hlevel : (s.ideal (.full 2) (polls.take 8)).level (.ofMillis 750) = 1 := by decide +kernel
  have hall : (s.run exact polls).grants = [.ofMillis 750, .zero, .zero] := by
    refine hgrants.trans ?_
    rw [if_pos ⟨by decide +kernel, hlevel.ge⟩]
    decide +kernel
  refine ⟨ho, by decide +kernel, hlevel, (hended (by decide +kernel)).mpr hlevel.ge, hall, ?_⟩
  refine (hwithout (fun k => k == 2 || k == 3 || k == 5) fun k hk => ?_).1.trans hall
  have hk : (k = 2 ∨ k = 3) ∨ k = 5 := by simpa using hk
  rcases hk with (rfl | rfl) | rfl <;> decide +kernel

end LimiterRun

end Reaper
