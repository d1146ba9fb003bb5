import Reaper.Proofs.Lease.SelfFencing

/-!
Stepping down: does a candidate that has lost its lease ever act again?

An election meets two kinds of events: the time of a tick, and the order to shut down. `Election.deeds` is what it does
with each of them, with every request that it sends, whether a reply comes or not. Along every run the candidate waits,
then perhaps leads, then perhaps has lost the lease, and it goes through these phases in that order only
(`steps_down_for_good`).

  §1 Deeds  — what an election does with an event, and how it can stand afterwards (`meet_cases`).
  §2 Phases — one step of each phase, and from it all that follows.
-/

namespace Reaper.Election

variable {σ : Type} (c : Candidate) (answer : Api.Request → σ → Option Api.Response × σ)

/-! ## §1 Deeds -/

/-- What can happen to an election. -/
inductive Event where
  /-- the time of a tick has come, at a time of day; its claim, if it has an end, ends at a moment -/
  | tick (time : Instant) (now : Duration)
  | shutdown
  deriving DecidableEq, Repr

/-- What an election did with an event. -/
structure Deed where
  before : Election
  after : Election
  /-- what it sent, also without getting a reply -/
  requests : List Api.Request
  /-- how its claim ended, if one was made and had an end -/
  outcome : Option (Except ClaimError Unit)

/-- The candidate did not lead before, and does after. -/
def Deed.rises (d : Deed) : Bool := !d.before.leads && d.after.leads

/-- The candidate led before, and does not after. -/
def Deed.falls (d : Deed) : Bool := d.before.leads && !d.after.leads

/-- What an election does with one event. -/
def meet (e : Election) (world : σ) : Event → Deed × σ
  | .tick time now =>
    let (after, world', requests) := e.tick c (Api.logged answer) time now (world, [])
    let outcome := if e.running then ((c.claim time).serve answer world).1.join else none
    (⟨e, after, requests, outcome⟩, world')
  | .shutdown => (⟨e, e.stop, [], none⟩, world)

/-- What an election does with one event after the other. -/
def deeds (e : Election) (world : σ) : List Event → List Deed
  | [] => []
  | event :: rest =>
    let (d, world') := e.meet c answer world event
    d :: deeds d.after world' rest

theorem deeds_cons (e : Election) (world : σ) (event : Event) (rest : List Event) :
    e.deeds c answer world (event :: rest) =
      (e.meet c answer world event).1 ::
        (e.meet c answer world event).1.after.deeds c answer (e.meet c answer world event).2 rest := rfl

@[simp] theorem meet_before (e : Election) (world : σ) (event : Event) :
    (e.meet c answer world event).1.before = e := by
  cases event <;> rfl

/-- Ticks that are watched leave the election, and the server, as they do unwatched. -/
theorem meet_tick (e : Election) (world : σ) (time : Instant) (now : Duration) :
    (e.meet c answer world (.tick time now)).1.after = (e.tick c answer time now world).1 ∧
      (e.meet c answer world (.tick time now)).2 = (e.tick c answer time now world).2 := by
  obtain ⟨hvalue, hworld⟩ := (Api.takesNotes_logged answer).serve (c.claim time) (world, [])
  simp only [meet, tick]
  split
  · generalize (c.claim time).serve (Api.logged answer) (world, []) = logged at hvalue hworld
    generalize (c.claim time).serve answer world = plain at hvalue hworld
    obtain ⟨found, world', log⟩ := logged
    obtain ⟨found', world''⟩ := plain
    obtain rfl : found = found' := hvalue
    obtain rfl : world' = world'' := hworld
    rcases found with _ | _ | outcome
    · exact ⟨rfl, rfl⟩
    · exact ⟨rfl, rfl⟩
    · exact ⟨rfl, rfl⟩
  · exact ⟨rfl, rfl⟩

/-- An election that has ended sends nothing more, and stays as it is. -/
theorem meet_of_not_running {e : Election} (h : e.running = false) (world : σ) (event : Event) :
    (e.meet c answer world event).1.after = e ∧ (e.meet c answer world event).1.requests = [] := by
  cases event with
  | tick time now => simp [meet, tick, h]
  | shutdown => cases e; simp_all [meet, stop]

/-- An election either has no outcome to look at, and then at most stops, or counts the outcome of a claim. -/
theorem meet_cases (e : Election) (world : σ) (event : Event) :
    ((e.meet c answer world event).1.outcome = none ∧
        ((e.meet c answer world event).1.after = e ∨ (e.meet c answer world event).1.after = e.stop)) ∨
      ∃ now outcome, (e.meet c answer world event).1.outcome = some outcome ∧
        (e.meet c answer world event).1.after = e.count c now outcome := by
  cases event with
  | shutdown => exact .inl ⟨rfl, .inr rfl⟩
  | tick time now =>
    rw [(meet_tick c answer e world time now).1]
    simp only [meet, tick]
    split
    · rcases (c.claim time).serve answer world with ⟨_ | _ | outcome, world'⟩
      · exact .inl ⟨rfl, .inr rfl⟩
      · exact .inl ⟨rfl, .inr rfl⟩
      · exact .inr ⟨now, outcome, rfl, rfl⟩
    · exact .inl ⟨rfl, .inl rfl⟩

/-- A candidate that does not lead comes to lead by a claim that succeeds, and by nothing else. -/
theorem rises_meet_iff (e : Election) (world : σ) (event : Event) :
    (e.meet c answer world event).1.rises = true ↔
      e.leads = false ∧ (e.meet c answer world event).1.outcome = some (.ok ()) := by
  simp only [Deed.rises, meet_before, Bool.and_eq_true, Bool.not_eq_true']
  refine and_congr_right fun hleads => ?_
  obtain ⟨houtcome, hafter | hafter⟩ | ⟨now, outcome, houtcome, hafter⟩ := meet_cases c answer e world event
  · simp [houtcome, hafter, hleads]
  · simp [houtcome, hafter, hleads, stop]
  · rw [houtcome, hafter, Option.some.injEq]
    rcases outcome with err | ⟨⟩
    · have hholds : e.holdsAfter c now (.error err) = false := by
        cases err <;> simp [holdsAfter, mayStillHold, hleads]
      simp [count, hholds, hleads]
    · simp [count, holdsAfter]

theorem rises_iff (e : Election) (world : σ) (events : List Event) :
    ∀ d ∈ e.deeds c answer world events, d.rises = true ↔ d.before.leads = false ∧ d.outcome = some (.ok ()) := by
  induction events generalizing e world with
  | nil =>
    intro d hd
    cases hd
  | cons event rest ih =>
    intro d hd
    rw [deeds_cons] at hd
    rcases List.mem_cons.mp hd with rfl | hd
    · rw [meet_before]
      exact rises_meet_iff c answer e world event
    · exact ih _ _ d hd

/-! ## §2 Phases -/

/-- The candidate has not led yet. -/
structure Waits (e : Election) : Prop where
  leads : e.leads = false
  lost : e.lost = false

/-- The candidate leads. -/
structure Leads (e : Election) : Prop where
  leads : e.leads = true
  lost : e.lost = false

/-- The candidate has led, and will not lead any more. -/
structure HasLost (e : Election) : Prop where
  leads : e.leads = false
  lost : e.lost = true
  running : e.running = false

/-- A candidate that waits goes on to wait, or leads. -/
theorem Waits.meet {e : Election} (h : Waits e) (world : σ) (event : Event) :
    Waits (e.meet c answer world event).1.after ∨ Leads (e.meet c answer world event).1.after := by
  obtain ⟨-, hafter | hafter⟩ | ⟨now, outcome, -, hafter⟩ := meet_cases c answer e world event
  · rw [hafter]
    exact .inl h
  · rw [hafter]
    exact .inl ⟨h.leads, h.lost⟩
  · rw [hafter, count]
    split
    · exact .inr ⟨rfl, h.lost⟩
    · rw [if_neg (by simp [h.leads])]
      exact .inl h

/-- A candidate that leads goes on to lead, or has lost. -/
theorem Leads.meet {e : Election} (h : Leads e) (world : σ) (event : Event) :
    Leads (e.meet c answer world event).1.after ∨ HasLost (e.meet c answer world event).1.after := by
  obtain ⟨-, hafter | hafter⟩ | ⟨now, outcome, -, hafter⟩ := meet_cases c answer e world event
  · rw [hafter]
    exact .inl h
  · rw [hafter]
    exact .inl ⟨h.leads, h.lost⟩
  · rw [hafter, count]
    split
    · exact .inl ⟨rfl, h.lost⟩
    · rw [if_pos h.leads]
      exact .inr ⟨rfl, rfl, rfl⟩

/-- Nothing is sent, and the candidate does not lead. -/
structure Deed.IsIdle (d : Deed) : Prop where
  requests : d.requests = []
  before : d.before.leads = false
  after : d.after.leads = false

theorem Deed.IsIdle.rises {d : Deed} (h : d.IsIdle) : d.rises = false := by simp [Deed.rises, h.after]

theorem Deed.IsIdle.falls {d : Deed} (h : d.IsIdle) : d.falls = false := by simp [Deed.falls, h.before]

/-- A candidate that has lost is idle, and has lost for good. -/
theorem HasLost.meet {e : Election} (h : HasLost e) (world : σ) (event : Event) :
    (e.meet c answer world event).1.IsIdle ∧ HasLost (e.meet c answer world event).1.after := by
  obtain ⟨hafter, hrequests⟩ := meet_of_not_running c answer h.running world event
  rw [hafter]
  refine ⟨⟨hrequests, ?_, ?_⟩, h⟩
  · rw [meet_before]
    exact h.leads
  · rw [hafter]
    exact h.leads

theorem HasLost.deeds {e : Election} (h : HasLost e) (world : σ) (events : List Event) :
    ∀ d ∈ e.deeds c answer world events, d.IsIdle ∧ d.after.lost = true := by
  induction events generalizing e world with
  | nil =>
    intro d hd
    cases hd
  | cons event rest ih =>
    intro d hd
    obtain ⟨hidle, hafter⟩ := h.meet c answer world event
    rw [deeds_cons] at hd
    rcases List.mem_cons.mp hd with rfl | hd
    · exact ⟨hidle, hafter.lost⟩
    · exact ih hafter _ d hd

/-- The candidate comes to lead at most once, and steps down at most once. At every time it has lost exactly if it has
stepped down, and after that it is idle. -/
structure StepsDownForGood (ds : List Deed) : Prop where
  rises_once : ds.countP Deed.rises ≤ 1
  falls_once : ds.countP Deed.falls ≤ 1
  lost_iff : ∀ past d, past ++ [d] <+: ds → (d.after.lost = true ↔ ∃ d' ∈ past ++ [d], d'.falls = true)
  idle_of_falls : ∀ past d later, ds = past ++ d :: later → d.falls = true → ∀ d' ∈ later, d'.IsIdle

namespace StepsDownForGood

variable {d : Deed} {ds : List Deed}

theorem nil : StepsDownForGood [] where
  rises_once := Nat.zero_le _
  falls_once := Nat.zero_le _
  lost_iff past d h := by simp at h
  idle_of_falls past d later h := by simp at h

/-- One more deed at the front, with which the candidate has not stepped down. -/
theorem cons (h : StepsDownForGood ds) (hfalls : d.falls = false) (hlost : d.after.lost = false)
    (hrises : d.rises = true → ∀ d' ∈ ds, d'.rises = false) : StepsDownForGood (d :: ds) where
  rises_once := by
    cases hr : d.rises with
    | false => simpa [List.countP_cons, hr] using h.rises_once
    | true =>
      have hnone : ds.countP Deed.rises = 0 := List.countP_eq_zero.mpr fun d' hd' => by simp [hrises hr d' hd']
      simp [hr, hnone]
  falls_once := by simpa [List.countP_cons, hfalls] using h.falls_once
  lost_iff := by
    intro past d' hpre
    cases past with
    | nil =>
      obtain ⟨rfl, -⟩ := List.cons_prefix_cons.mp hpre
      simp [hlost, hfalls]
    | cons first past =>
      obtain ⟨rfl, hrest⟩ := List.cons_prefix_cons.mp hpre
      simpa [hfalls] using h.lost_iff past d' hrest
  idle_of_falls := by
    intro past d' later heq hf
    cases past with
    | nil =>
      obtain ⟨rfl, -⟩ := List.cons.inj heq
      simp [hfalls] at hf
    | cons first past => exact h.idle_of_falls past d' later (List.cons.inj heq).2 hf

/-- One more deed at the front, with which the candidate steps down. -/
theorem cons_of_falls (hfalls : d.falls = true) (hlost : d.after.lost = true)
    (h : ∀ d' ∈ ds, d'.IsIdle ∧ d'.after.lost = true) : StepsDownForGood (d :: ds) := by
  have hrises : d.rises = false := by
    simp only [Deed.falls, Bool.and_eq_true] at hfalls
    simp [Deed.rises, hfalls.1]
  have hnone (p : Deed → Bool) (hp : ∀ d', d'.IsIdle → p d' = false) : ds.countP p = 0 :=
    List.countP_eq_zero.mpr fun d' hd' => by simp [hp d' (h d' hd').1]
  refine ⟨?_, ?_, ?_, ?_⟩
  · simp [hrises, hnone _ fun _ => Deed.IsIdle.rises]
  · simp [hfalls, hnone _ fun _ => Deed.IsIdle.falls]
  · intro past d' hpre
    cases past with
    | nil =>
      obtain ⟨rfl, -⟩ := List.cons_prefix_cons.mp hpre
      simp [hlost, hfalls]
    | cons first past =>
      obtain ⟨rfl, hrest⟩ := List.cons_prefix_cons.mp hpre
      have hmem : d' ∈ ds := hrest.subset (List.mem_append_right past (List.mem_singleton_self d'))
      simp [hfalls, (h d' hmem).2]
  · intro past d' later heq hf d'' hd''
    cases past with
    | nil =>
      obtain ⟨rfl, rfl⟩ := List.cons.inj heq
      exact (h d'' hd'').1
    | cons first past =>
      obtain ⟨-, rfl⟩ := List.cons.inj heq
      exact (h d'' (by simp [hd''])).1

end StepsDownForGood

/-- A candidate that leads does not come to lead again. -/
theorem Leads.deeds {e : Election} (h : Leads e) (world : σ) (events : List Event) :
    StepsDownForGood (e.deeds c answer world events) ∧ ∀ d ∈ e.deeds c answer world events, d.rises = false := by
  induction events generalizing e world with
  | nil =>
    refine ⟨.nil, ?_⟩
    intro d hd
    cases hd
  | cons event rest ih =>
    rw [deeds_cons]
    have hrises : (e.meet c answer world event).1.rises = false := by simp [Deed.rises, h.leads]
    obtain hafter | hafter := h.meet c answer world event
    · obtain ⟨hrest, hnone⟩ := ih hafter (e.meet c answer world event).2
      have hfalls : (e.meet c answer world event).1.falls = false := by simp [Deed.falls, hafter.leads]
      exact ⟨hrest.cons hfalls hafter.lost (by simp [hrises]), by simpa [hrises] using hnone⟩
    · have hrest := hafter.deeds c answer (e.meet c answer world event).2 rest
      have hfalls : (e.meet c answer world event).1.falls = true := by simp [Deed.falls, h.leads, hafter.leads]
      refine ⟨.cons_of_falls hfalls hafter.lost hrest, ?_⟩
      simpa [hrises] using fun d hd => (hrest d hd).1.rises

theorem Waits.deeds {e : Election} (h : Waits e) (world : σ) (events : List Event) :
    StepsDownForGood (e.deeds c answer world events) := by
  induction events generalizing e world with
  | nil => exact .nil
  | cons event rest ih =>
    rw [deeds_cons]
    have hfalls : (e.meet c answer world event).1.falls = false := by simp [Deed.falls, h.leads]
    obtain hafter | hafter := h.meet c answer world event
    · refine (ih hafter _).cons hfalls hafter.lost ?_
      simp [Deed.rises, hafter.leads]
    · obtain ⟨hrest, hnone⟩ := hafter.deeds c answer (e.meet c answer world event).2 rest
      exact hrest.cons hfalls hafter.lost fun _ => hnone

theorem waits_start : Waits (start c) := ⟨rfl, rfl⟩

/-- Whatever a server replies and whenever the ticks come: a candidate starts without leading, comes to lead when a claim
succeeds and at no other time, and steps down for good. -/
theorem steps_down_for_good (world : σ) (events : List Event) :
    Waits (start c) ∧
      (∀ d ∈ (start c).deeds c answer world events,
        d.rises = true ↔ d.before.leads = false ∧ d.outcome = some (.ok ())) ∧
      StepsDownForGood ((start c).deeds c answer world events) :=
  ⟨waits_start c, rises_iff c answer (start c) world events, (waits_start c).deeds c answer world events⟩

/-- A candidate whose server is gone after one claim rises with its first tick and falls with its second, twenty
seconds later. Nothing is sent at its third. -/
example :
    ((start steadyCandidate).deeds steadyCandidate onceReachable 0
      [.tick ⟨0, 0⟩ (.ofSecs 0), .tick ⟨20, 0⟩ (.ofSecs 20), .tick ⟨25, 0⟩ (.ofSecs 25), .shutdown]).map
        (fun d => (d.rises, d.falls, d.requests.length)) =
      [(true, false, 2), (false, true, 1), (false, false, 0), (false, false, 0)] := by
  decide +kernel

end Reaper.Election
