import Mathlib.Algebra.BigOperators.Intervals
import Mathlib.Algebra.Order.BigOperators.Group.Finset
import Mathlib.Order.Interval.Finset.Nat
import Reaper.Bucket.Task
import Reaper.Proofs.Bucket.Level

/-!
How many tokens a limiter grants in a window of time, in exact arithmetic.

What has been granted and what the bucket still holds never grow by more than what comes in, and what comes in is the
rate in force, moment by moment (`inflow`). So the tokens granted in a window are at most a full bucket at the rate in
force when it opens, and what comes in during it (`grants_in_window_le`).

  §1 Steps   — every call keeps the bucket valid, and grants no token that the bucket does not lose.
  §2 Inflow  — the rate in force along a run, and its sum over a window.
  §3 Windows — a run is cut at the ends of the window.
-/

namespace Reaper.LimiterRun

open Rounding (exact)

variable {s : LimiterRun}

/-! ## §1 Steps -/

/-- What has been granted, and what the bucket holds at a moment. -/
def stock (s : LimiterRun) (now : Duration) : Rat := s.grants.length + s.bucket.level now

theorem attempt_valid (h : s.bucket.Valid) (i : Nat) (now : Duration) (later : Duration → LimiterTask) :
    (s.attempt exact i now later).bucket.Valid ∧ (s.attempt exact i now later).stock now = s.stock now := by
  obtain ⟨hvalid, -, hlevel⟩ := h.request now
  unfold attempt
  rcases hasked : s.bucket.request exact now with ⟨b, _ | d | _⟩ <;> rw [hasked] at hvalid hlevel
  · refine ⟨hvalid, ?_⟩
    simp only [stock, put, List.length_cons, Nat.cast_add, Nat.cast_one]
    rw [← hlevel, if_pos rfl]
    ring
  · exact ⟨hvalid, by simpa [stock, put] using hlevel⟩
  · exact ⟨hvalid, by simpa [stock, put] using hlevel⟩

/-- One call leaves no more than there was. -/
theorem step_valid (h : s.bucket.Valid) (e : LimiterEvent) :
    (s.step exact e).bucket.Valid ∧ (s.step exact e).stock e.now ≤ s.stock e.now := by
  unfold step
  split
  · split
    · exact ⟨h, le_refl _⟩
    · split
      · exact ⟨h, le_refl _⟩
      · exact (attempt_valid h ..).imp id le_of_eq
  · exact (attempt_valid h ..).imp id le_of_eq
  · rename_i x _
    split
    · exact ⟨h, le_refl _⟩
    · rename_i q hq
      obtain ⟨hvalid, hlevel⟩ := h.setRate (Bucket.pos_of_rate? hq) e.now
      refine ⟨hvalid, ?_⟩
      simp only [stock, put, hlevel]
      exact add_le_add_right (min_le_left _ _) _
  · exact ⟨h, le_refl _⟩
  · exact ⟨h, le_refl _⟩

/-- A call grants tokens at its own moment only. -/
theorem grants_step (s : LimiterRun) (e : LimiterEvent) :
    ∃ new, (s.step exact e).grants = new ++ s.grants ∧ ∀ g ∈ new, g = e.now := by
  have hattempt (i : Nat) (now : Duration) (later : Duration → LimiterTask) :
      ∃ new, (s.attempt exact i now later).grants = new ++ s.grants ∧ ∀ g ∈ new, g = now := by
    unfold attempt
    split
    · exact ⟨[now], rfl, by simp⟩
    · exact ⟨[], rfl, by simp⟩
    · exact ⟨[], rfl, by simp⟩
  unfold step
  split
  · split
    · exact ⟨[], rfl, by simp⟩
    · split
      · exact ⟨[], rfl, by simp⟩
      · exact hattempt ..
  · exact hattempt ..
  · split <;> exact ⟨[], rfl, by simp⟩
  · exact ⟨[], rfl, by simp⟩
  · exact ⟨[], rfl, by simp⟩

theorem run_cons (s : LimiterRun) (e : LimiterEvent) (events : List LimiterEvent) :
    s.run exact (e :: events) = (s.step exact e).run exact events := rfl

theorem run_append (s : LimiterRun) (before after : List LimiterEvent) :
    s.run exact (before ++ after) = (s.run exact before).run exact after := List.foldl_append

theorem run_valid (h : s.bucket.Valid) (events : List LimiterEvent) : (s.run exact events).bucket.Valid := by
  induction events generalizing s with
  | nil => exact h
  | cons e events ih => exact ih (step_valid h e).1

theorem grants_run (s : LimiterRun) (events : List LimiterEvent) :
    ∃ new, (s.run exact events).grants = new ++ s.grants ∧ ∀ g ∈ new, ∃ e ∈ events, g = e.now := by
  induction events generalizing s with
  | nil => exact ⟨[], rfl, by simp⟩
  | cons e events ih =>
    obtain ⟨first, hfirst, hnow⟩ := grants_step s e
    obtain ⟨rest, hrest, hlater⟩ := ih (s.step exact e)
    refine ⟨rest ++ first, ?_, ?_⟩
    · rw [run_cons, hrest, hfirst, List.append_assoc]
    · intro g hg
      rcases List.mem_append.mp hg with hg | hg
      · obtain ⟨e', he', rfl⟩ := hlater g hg
        exact ⟨e', List.mem_cons_of_mem _ he', rfl⟩
      · exact ⟨e, List.mem_cons_self .., hnow g hg⟩

/-! ## §2 Inflow -/

/-- The rate in force at a moment of a run: after all calls up to that moment. -/
def rateAt (s : LimiterRun) (events : List LimiterEvent) (now : Duration) : Rat :=
  (s.run exact (events.filter (·.now ≤ now))).bucket.rate

/-- The rate in force when a moment of a run begins: before all calls at that moment. -/
def rateBefore (s : LimiterRun) (events : List LimiterEvent) (now : Duration) : Rat :=
  (s.run exact (events.filter (·.now < now))).bucket.rate

/-- What comes in from one moment of a run to another: the sum of the rate in force over the nanoseconds between them.
Calls are made at whole nanoseconds, so that this is the integral of the rate. -/
def inflow (s : LimiterRun) (events : List LimiterEvent) (opens closes : Duration) : Rat :=
  ∑ k ∈ Finset.Ico opens.nanos closes.nanos, s.rateAt events ⟨k⟩ / Duration.perSecond

/-- The moments of the calls do not go backwards. -/
abbrev InOrder (events : List LimiterEvent) : Prop := events.Pairwise fun e e' => e.now.nanos ≤ e'.now.nanos

theorem rateAt_cons_of_lt {e : LimiterEvent} {events : List LimiterEvent} (ho : InOrder (e :: events)) (now : Duration)
    (h : now.nanos < e.now.nanos) : s.rateAt (e :: events) now = s.bucket.rate := by
  have hnone : (e :: events).filter (·.now ≤ now) = [] := by
    refine List.filter_eq_nil_iff.mpr fun e' he' => ?_
    have hle : e.now.nanos ≤ e'.now.nanos := by
      rcases List.mem_cons.mp he' with rfl | he'
      · exact Nat.le_refl _
      · exact (List.pairwise_cons.mp ho).1 e' he'
    rw [decide_eq_true_eq]
    exact Nat.not_le.mpr (Nat.lt_of_lt_of_le h hle)
  rw [rateAt, hnone]
  rfl

theorem rateAt_cons_of_le {e : LimiterEvent} {events : List LimiterEvent} (now : Duration)
    (h : e.now.nanos ≤ now.nanos) : s.rateAt (e :: events) now = (s.step exact e).rateAt events now := by
  have hkeep : decide (e.now ≤ now) = true := decide_eq_true h
  rw [rateAt, List.filter_cons, if_pos hkeep]
  rfl

theorem inflow_nonneg (h : s.bucket.Valid) (events : List LimiterEvent) (opens closes : Duration) :
    0 ≤ s.inflow events opens closes :=
  Finset.sum_nonneg fun _ _ => div_nonneg (run_valid h _).rate_pos.le Duration.perSecond_pos.le

/-- Without calls the rate stays. -/
theorem inflow_nil (s : LimiterRun) (opens closes : Duration) :
    s.inflow [] opens closes = opens.secondsTo closes * s.bucket.rate := by
  have hrate (k : Nat) : s.rateAt [] ⟨k⟩ = s.bucket.rate := rfl
  simp only [inflow, hrate, Finset.sum_const, Nat.card_Ico, nsmul_eq_mul, Duration.secondsTo]
  ring

/-- Up to the first call comes in what the present rate brings, and the rest comes in after that call. -/
theorem inflow_cons {e : LimiterEvent} {events : List LimiterEvent} (ho : InOrder (e :: events))
    {opens closes : Duration} (hopens : opens.nanos ≤ e.now.nanos) (hcloses : e.now.nanos ≤ closes.nanos) :
    s.inflow (e :: events) opens closes =
      opens.secondsTo e.now * s.bucket.rate + (s.step exact e).inflow events e.now closes := by
  have hbefore : ∑ k ∈ Finset.Ico opens.nanos e.now.nanos, s.rateAt (e :: events) ⟨k⟩ / Duration.perSecond =
      opens.secondsTo e.now * s.bucket.rate := by
    rw [← inflow_nil]
    refine Finset.sum_congr rfl fun k hk => ?_
    rw [rateAt_cons_of_lt ho ⟨k⟩ (Finset.mem_Ico.mp hk).2]
    rfl
  have hafter : ∑ k ∈ Finset.Ico e.now.nanos closes.nanos, s.rateAt (e :: events) ⟨k⟩ / Duration.perSecond =
      (s.step exact e).inflow events e.now closes :=
    Finset.sum_congr rfl fun k hk => by rw [rateAt_cons_of_le ⟨k⟩ (Finset.mem_Ico.mp hk).1]
  rw [inflow, ← Finset.sum_Ico_consecutive _ hopens hcloses, hbefore, hafter]

/-- What has been granted by the end of a window is no more than what there was at its beginning and what came in. -/
theorem grants_le_add_inflow (h : s.bucket.Valid) {events : List LimiterEvent} (ho : InOrder events)
    {opens closes : Duration} (hin : ∀ e ∈ events, opens.nanos ≤ e.now.nanos ∧ e.now.nanos ≤ closes.nanos) :
    ((s.run exact events).grants.length : Rat) ≤ s.stock opens + s.inflow events opens closes := by
  induction events generalizing s opens with
  | nil =>
    have hlevel := h.level_nonneg opens
    have hinflow := inflow_nonneg h [] opens closes
    have : ((s.run exact []).grants.length : Rat) = s.grants.length := rfl
    unfold stock
    linarith
  | cons e events ih =>
    obtain ⟨⟨hopens, hcloses⟩, hrest⟩ := List.forall_mem_cons.mp hin
    obtain ⟨hfirst, hlater⟩ := List.pairwise_cons.mp ho
    obtain ⟨hvalid, hstock⟩ := step_valid h e
    have hgrants := ih hvalid hlater fun e' he' => ⟨hfirst e' he', (hrest e' he').2⟩
    have hfill : s.stock e.now ≤ s.stock opens + opens.secondsTo e.now * s.bucket.rate := by
      have hlevel := h.level_le_add opens e.now
      unfold stock
      linarith
    rw [run_cons, inflow_cons ho hopens hcloses]
    linarith

/-! ## §3 Windows -/

/-- A run in order is cut in two by what holds of its moments up to some point. -/
theorem filter_append_filter_not {events : List LimiterEvent} (ho : InOrder events) {p : Duration → Bool}
    (hp : ∀ a b : Duration, a.nanos ≤ b.nanos → p b = true → p a = true) :
    events.filter (fun e => p e.now) ++ events.filter (fun e => !p e.now) = events := by
  induction events with
  | nil => rfl
  | cons e events ih =>
    obtain ⟨hfirst, hlater⟩ := List.pairwise_cons.mp ho
    cases hpe : p e.now with
    | true => simp only [List.filter_cons, hpe, if_true, Bool.not_true, Bool.false_eq_true, if_false,
        List.cons_append, ih hlater]
    | false =>
      have hnone : events.filter (fun e => p e.now) = [] := by
        refine List.filter_eq_nil_iff.mpr fun e' he' h => ?_
        rw [hp _ _ (hfirst e' he') h] at hpe
        cases hpe
      rw [hnone, List.nil_append] at ih
      simp only [List.filter_cons, hpe, hnone, Bool.false_eq_true, if_false, Bool.not_false, if_true,
        List.nil_append, ih hlater]

/-- A run in order is cut in three by a window: what comes before it, in it, and after it. -/
theorem exists_window {events : List LimiterEvent} (ho : InOrder events) (opens closes : Duration) :
    ∃ inside after, events = events.filter (·.now < opens) ++ (inside ++ after) ∧
      (∀ e ∈ inside, opens.nanos ≤ e.now.nanos ∧ e.now.nanos ≤ closes.nanos) ∧
      ∀ e ∈ after, closes.nanos < e.now.nanos := by
  let early (t : Duration) : Bool := t < opens
  let soon (t : Duration) : Bool := t ≤ closes
  have hearly (a b : Duration) (h : a.nanos ≤ b.nanos) (hb : early b = true) : early a = true := by
    have hlt : b.nanos < opens.nanos := of_decide_eq_true hb
    exact decide_eq_true (Nat.lt_of_le_of_lt h hlt)
  have hsoon (a b : Duration) (h : a.nanos ≤ b.nanos) (hb : soon b = true) : soon a = true := by
    have hle : b.nanos ≤ closes.nanos := of_decide_eq_true hb
    exact decide_eq_true (Nat.le_trans h hle)
  let late := events.filter fun e => !early e.now
  refine ⟨late.filter fun e => soon e.now, late.filter fun e => !soon e.now, ?_, fun e he => ?_, fun e he => ?_⟩
  · rw [filter_append_filter_not (ho.filter _) hsoon]
    exact (filter_append_filter_not ho hearly).symm
  · obtain ⟨hlate, hle⟩ := List.mem_filter.mp he
    have hnot : early e.now = false := by simpa using (List.mem_filter.mp hlate).2
    exact ⟨Nat.not_lt.mp (of_decide_eq_false hnot), of_decide_eq_true hle⟩
  · have hnot : soon e.now = false := by simpa using (List.mem_filter.mp he).2
    exact Nat.not_le.mp (of_decide_eq_false hnot)

/-- In a window the rate in force is that of the run that begins with it. -/
theorem inflow_window {events inside after : List LimiterEvent} {opens closes : Duration}
    (hcut : events = events.filter (·.now < opens) ++ (inside ++ after))
    (hafter : ∀ e ∈ after, closes.nanos < e.now.nanos) :
    s.inflow events opens closes =
      (s.run exact (events.filter (·.now < opens))).inflow inside opens closes := by
  refine Finset.sum_congr rfl fun k hk => ?_
  obtain ⟨hopens, hcloses⟩ := Finset.mem_Ico.mp hk
  have hold : (events.filter (·.now < opens)).filter (·.now ≤ ⟨k⟩) = events.filter (·.now < opens) := by
    refine List.filter_eq_self.mpr fun e he => ?_
    have hlt : e.now.nanos < opens.nanos := of_decide_eq_true (List.mem_filter.mp he).2
    exact decide_eq_true (Nat.le_trans (Nat.le_of_lt hlt) hopens)
  have hnone : after.filter (·.now ≤ ⟨k⟩) = [] := by
    refine List.filter_eq_nil_iff.mpr fun e he h => ?_
    have hle : e.now.nanos ≤ k := of_decide_eq_true h
    exact absurd (hafter e he) (Nat.not_lt.mpr (Nat.le_trans hle (Nat.le_of_lt hcloses)))
  have hkeep : events.filter (·.now ≤ ⟨k⟩) = events.filter (·.now < opens) ++ inside.filter (·.now ≤ ⟨k⟩) := by
    conv_lhs => rw [hcut]
    rw [List.filter_append, List.filter_append, hold, hnone, List.append_nil]
  rw [rateAt, hkeep, run_append]
  rfl

/-- The tokens that are granted in a window are at most a full bucket and what comes in. -/
theorem countP_grants_le (h : s.bucket.Valid) (hnone : s.grants = []) {events : List LimiterEvent}
    (ho : InOrder events) (opens closes : Duration) :
    ((s.run exact events).grants.countP fun g => opens ≤ g ∧ g ≤ closes : Rat) ≤
      max (s.rateBefore events opens) 1 + s.inflow events opens closes := by
  obtain ⟨inside, after, hcut, hinside, hafter⟩ := exists_window ho opens closes
  generalize hbefore : events.filter (·.now < opens) = before at hcut
  have hvalid := run_valid h before
  obtain ⟨early, hearly, hearlier⟩ := grants_run s before
  obtain ⟨fresh, hfresh, -⟩ := grants_run (s.run exact before) inside
  obtain ⟨late, hlate, hlater⟩ := grants_run ((s.run exact before).run exact inside) after
  -- only the grants of the calls in the window count
  have hcount : (s.run exact events).grants.countP (fun g => opens ≤ g ∧ g ≤ closes) ≤ fresh.length := by
    have hlate0 : late.countP (fun g => opens ≤ g ∧ g ≤ closes) = 0 := by
      refine List.countP_eq_zero.mpr fun g hg hin => ?_
      obtain ⟨e, he, rfl⟩ := hlater g hg
      have hle : e.now.nanos ≤ closes.nanos := (of_decide_eq_true hin).2
      exact absurd (hafter e he) (Nat.not_lt.mpr hle)
    have hearly0 : early.countP (fun g => opens ≤ g ∧ g ≤ closes) = 0 := by
      refine List.countP_eq_zero.mpr fun g hg hin => ?_
      obtain ⟨e, he, rfl⟩ := hearlier g hg
      have hle : opens.nanos ≤ e.now.nanos := (of_decide_eq_true hin).1
      rw [← hbefore] at he
      have hlt : e.now.nanos < opens.nanos := of_decide_eq_true (List.mem_filter.mp he).2
      exact absurd hlt (Nat.not_lt.mpr hle)
    rw [hcut, run_append, run_append, hlate, hfresh, hearly, hnone]
    simp only [List.countP_append, hlate0, hearly0, List.countP_nil, Nat.zero_add, Nat.add_zero]
    exact List.countP_le_length
  have hin := grants_le_add_inflow hvalid (ho.sublist ?_) hinside
  · have hlevel := hvalid.level_le opens
    rw [Bucket.capacityOf_eq_max] at hlevel
    rw [hfresh, List.length_append, Nat.cast_add, stock] at hin
    have hsame : s.inflow events opens closes = (s.run exact before).inflow inside opens closes := by
      rw [← hbefore] at hcut ⊢
      exact inflow_window hcut hafter
    rw [hsame, rateBefore, hbefore]
    have hcast : ((s.run exact events).grants.countP (fun g => opens ≤ g ∧ g ≤ closes) : Rat) ≤ fresh.length := by
      exact_mod_cast hcount
    linarith
  · rw [hcut]
    exact (List.sublist_append_left inside after).trans (List.sublist_append_right before _)

/-- Nobody is about to change the rate. -/
def IsSteady (tasks : Array LimiterTask) : Prop :=
  ∀ (i : Nat) (x : Binary64), tasks[i]? ≠ some (LimiterTask.reconfiguring x)

theorem IsSteady.set {tasks : Array LimiterTask} (h : IsSteady tasks) (i : Nat) {t : LimiterTask}
    (ht : ∀ x, t ≠ .reconfiguring x) : IsSteady (tasks.setIfInBounds i t) := by
  intro j x hj
  rw [Array.getElem?_setIfInBounds] at hj
  split at hj
  · split at hj
    · exact ht x (Option.some.inj hj)
    · cases hj
  · exact h j x hj

theorem IsSteady.attempt (h : IsSteady s.tasks) (hb : s.bucket.Valid) (i : Nat) (now : Duration)
    {later : Duration → LimiterTask} (hlater : ∀ d x, later d ≠ .reconfiguring x) :
    IsSteady (s.attempt exact i now later).tasks ∧ (s.attempt exact i now later).bucket.rate = s.bucket.rate := by
  have hended (result : LimiterResult) : IsSteady (s.tasks.setIfInBounds i (.ended result)) := h.set i fun _ => nofun
  obtain ⟨-, hrate, -⟩ := hb.request now
  unfold LimiterRun.attempt
  rcases hasked : s.bucket.request exact now with ⟨b, _ | d | _⟩ <;> rw [hasked] at hrate
  · exact ⟨hended _, hrate⟩
  · exact ⟨h.set i (hlater d), hrate⟩
  · exact ⟨hended _, hrate⟩

/-- Where nobody is about to change the rate it stays. -/
theorem IsSteady.step (h : IsSteady s.tasks) (hb : s.bucket.Valid) (e : LimiterEvent) :
    IsSteady (s.step exact e).tasks ∧ (s.step exact e).bucket.rate = s.bucket.rate := by
  unfold LimiterRun.step
  split
  · split
    · exact ⟨h.set _ fun _ => nofun, rfl⟩
    · split
      · exact ⟨h, rfl⟩
      · exact h.attempt hb _ _ fun _ _ => nofun
  · exact h.attempt hb _ _ fun _ _ => nofun
  · rename_i x hx
    exact absurd hx (h _ x)
  · exact ⟨h, rfl⟩
  · exact ⟨h, rfl⟩

theorem IsSteady.rate_run (h : IsSteady s.tasks) (hb : s.bucket.Valid) (events : List LimiterEvent) :
    (s.run exact events).bucket.rate = s.bucket.rate := by
  induction events generalizing s with
  | nil => rfl
  | cons e events ih =>
    obtain ⟨hsteady, hrate⟩ := h.step hb e
    exact (ih hsteady (step_valid hb e).1).trans hrate

/-- In any window of a run the tokens granted are at most a full bucket at the rate in force when the window opens, and
what the rate in force brings during it; while nobody changes the rate that is the rate times the length of the window. A
call that changes the rate grants nothing and only cuts what the bucket holds to the new capacity. -/
theorem grants_in_window_le {rate : Rat} (hrate : 0 < rate) (start : Duration) (tasks : Array LimiterTask)
    {events : List LimiterEvent} (ho : InOrder events) (opens closes : Duration) :
    let s := begin rate start tasks
    let granted : Rat := (s.run exact events).grants.countP fun g => opens ≤ g ∧ g ≤ closes
    granted ≤ max (s.rateBefore events opens) 1 + s.inflow events opens closes ∧
    (IsSteady tasks → granted ≤ rate * opens.secondsTo closes + max rate 1) ∧
    ∀ before e x, (before ++ [e]) <+: events → (s.run exact before).tasks[e.task]? = some (.reconfiguring x) →
      let r := s.run exact before
      let r' := s.run exact (before ++ [e])
      r'.bucket.level e.now = min (r.bucket.level e.now) r'.bucket.capacity ∧ r'.grants = r.grants := by
  intro s granted
  have hvalid : s.bucket.Valid := Bucket.Valid.full hrate start
  have hbound := countP_grants_le hvalid rfl ho opens closes
  refine ⟨hbound, fun hsteady => ?_, fun before e x _ hx => ?_⟩
  · have hrates (events : List LimiterEvent) : (s.run exact events).bucket.rate = rate :=
      IsSteady.rate_run hsteady hvalid events
    have hinflow : s.inflow events opens closes = rate * opens.secondsTo closes := by
      rw [show rate = s.bucket.rate from rfl, mul_comm, ← inflow_nil]
      exact Finset.sum_congr rfl fun k _ => by rw [rateAt, hrates, rateAt, hrates]
    rw [hinflow, rateBefore, hrates] at hbound
    linarith
  · have hb := run_valid hvalid before
    rw [run_append, run_cons]
    show ((s.run exact before).step exact e).bucket.level e.now = _ ∧ _
    unfold step
    rw [hx]
    dsimp only
    split
    · exact ⟨(min_eq_left ((hb.level_le e.now).trans_eq hb.capacity_eq.symm)).symm, rfl⟩
    · rename_i q hq
      exact ⟨(hb.setRate (Bucket.pos_of_rate? hq) e.now).2, rfl⟩

/-- Three tasks acquire a token at two tokens a second; a fourth call halves the rate after a quarter of a second. -/
def crowd : Array LimiterTask :=
  #[.acquiring .zero, .acquiring .zero, .acquiring .zero, .reconfiguring (.finite 1)]

/-- The third task sleeps half a second, and a quarter of a second more because of the new rate. -/
def rush : List LimiterEvent :=
  [⟨0, .zero, false⟩, ⟨1, .zero, false⟩, ⟨2, .zero, false⟩, ⟨3, .ofMillis 250, false⟩, ⟨2, .ofMillis 500, false⟩,
    ⟨2, .ofMillis 750, false⟩]

/-- The rush is granted as many tokens as the bound allows: two of the full bucket, a half at the old rate and a half at
the new one. The change of the rate leaves the half token that came in before it. -/
theorem rush_fills_window :
    let s := begin 2 .zero crowd
    (s.run exact rush).grants = [.ofMillis 750, .zero, .zero] ∧
    (3 : Rat) ≤ max (s.rateBefore rush .zero) 1 + s.inflow rush .zero (.ofMillis 750) ∧
    max (s.rateBefore rush .zero) 1 + s.inflow rush .zero (.ofMillis 750) = 3 ∧
    (s.run exact (rush.take 4)).bucket.level (.ofMillis 250) = 1 / 2 := by
  intro s
  have ho : InOrder rush := by decide +kernel
  obtain ⟨hwindow, -, hchange⟩ := grants_in_window_le two_pos .zero crowd ho .zero (.ofMillis 750)
  have hgrants : (s.run exact rush).grants = [.ofMillis 750, .zero, .zero] := by decide +kernel
  have hlevel := (hchange (rush.take 3) ⟨3, .ofMillis 250, false⟩ (.finite 1) (by decide +kernel) (by decide +kernel)).1
  refine ⟨hgrants, ?_, ?_, hlevel.trans (by decide +kernel)⟩
  · rw [hgrants] at hwindow
    exact hwindow
  · have hsum : s.inflow rush .zero (.ofMillis 750) = _ := inflow_cons ho (Nat.le_refl 0) (by decide)
    rw [inflow_cons ho.tail (by decide) (by decide), inflow_cons ho.tail.tail (by decide) (by decide),
      inflow_cons ho.tail.tail.tail (by decide) (by decide), inflow_cons ho.tail.tail.tail.tail (by decide) (by decide),
      inflow_cons ho.tail.tail.tail.tail.tail (by decide) (by decide), inflow_nil] at hsum
    have hrate : s.rateBefore rush .zero = 2 := rfl
    rw [hrate, hsum]
    decide +kernel

end Reaper.LimiterRun
