import Reaper.Proofs.Lease.Exchanges

/-!
Self-fencing: does a candidate stop leading before the lease that it last wrote can have expired?

`Election.history` is what is seen of an election: its ticks that have ended, each with its exchanges, its outcome, and
whether the candidate leads after it. The history is fenced (`IsFenced`) when after every tick that leaves the
candidate leading the last successful write of the lease is less than a lease duration old.

  §1 Histories — ticks that have ended, and the last renewal among them.
  §2 Streaks   — a renewal and the failures after it, each less than a lease duration after the tick before it. The
                 election keeps leading through exactly the streaks (`leads_iff_streak`): a tick that is survived
                 counts as the lease being held, although nothing was written.
  §3 Fencing   — so a history is fenced exactly when no streak grows as old as the lease
                 (`isFenced_iff_streaks_short`), and a server that stays away keeps the candidate leading for ever.
-/

namespace Reaper.Election

variable {σ : Type} (c : Candidate) (answer : Api.Request → σ → Option Api.Response × σ)

/-! ## §1 Histories -/

/-- A tick that has ended. -/
structure Ended where
  /-- when it ended -/
  moment : Duration
  exchanges : Api.Record
  outcome : Except ClaimError Unit
  /-- the candidate leads after it -/
  leads : Bool
  deriving Repr

namespace Ended

/-- The server accepted a write of the lease. -/
def renews (t : Ended) : Bool := Candidate.renewed t.exchanges

/-- Nothing was written, and not because somebody else holds the lease. -/
def fails (t : Ended) : Bool :=
  !t.renews &&
    match t.outcome with
    | .error (.held _) => false
    | _ => true

/-- Less than a lease duration has gone by since an earlier tick. -/
def soonAfter (t earlier : Ended) : Prop := t.moment.nanos - earlier.moment.nanos < c.leaseDuration.nanos

end Ended

/-- What is seen of an election along a list of ticks, each given by the time of day of its claim and the moment at
which it ends. The history stops where the election does, and before a claim that has no end. -/
def history : Election → σ → List (Instant × Duration) → List Ended
  | _, _, [] => []
  | e, world, (time, now) :: rest =>
    match (c.claim time).serve (Api.recorded answer) (world, []) with
    | (some (some outcome), _, exchanges) =>
      if e.running then
        let (after, world') := e.tick c answer time now world
        ⟨now, exchanges, outcome, after.leads⟩ :: history after world' rest
      else []
    | _ => []

def lastRenewal? (past : List Ended) : Option Ended := (past.filter Ended.renews).getLast?

/-- After every tick that leaves the candidate leading, it has renewed the lease less than a lease duration ago. -/
def IsFenced (h : List Ended) : Prop :=
  ∀ past t, past ++ [t] <+: h → t.leads = true → ∃ r, lastRenewal? (past ++ [t]) = some r ∧ t.soonAfter c r

/-! ## §2 Streaks -/

/-- The history ends in a streak that began with the renewal `r`: since then every tick has failed, each less than a
lease duration after the one before. -/
inductive Streak (r : Ended) : List Ended → Prop where
  | renewed (past : List Ended) : r.renews = true → Streak r (past ++ [r])
  | failed (past : List Ended) (last t : Ended) : Streak r (past ++ [last]) → t.fails = true → t.soonAfter c last →
      Streak r (past ++ [last] ++ [t])

/-- The streaks of a history end before the lease does. -/
def StreaksAreShort (h : List Ended) : Prop :=
  ∀ past r t, past ++ [t] <+: h → Streak c r (past ++ [t]) → t.soonAfter c r

theorem Ended.not_renews_of_fails {t : Ended} (h : t.fails = true) : t.renews = false := by
  simp only [fails, Bool.and_eq_true, Bool.not_eq_true'] at h
  exact h.1

/-- The renewal of a streak is the last one. -/
theorem Streak.lastRenewal {r : Ended} {past : List Ended} (h : Streak c r past) : lastRenewal? past = some r := by
  induction h with
  | renewed past hr => simp [lastRenewal?, hr]
  | failed past last t _ ht _ ih => simpa [lastRenewal?, Ended.not_renews_of_fails ht] using ih

/-- A streak ends in its renewal, or in a failure soon after the end of a shorter streak. -/
theorem Streak.last {r t : Ended} {past : List Ended} (h : Streak c r (past ++ [t])) :
    t.renews = true ∨ t.fails = true ∧ ∃ last, past.getLast? = some last ∧ t.soonAfter c last ∧ Streak c r past := by
  generalize hp : past ++ [t] = whole at h
  cases h with
  | renewed past' hr =>
    obtain ⟨-, rfl⟩ := List.append_inj' hp rfl |>.imp id List.singleton_inj.mp
    exact .inl hr
  | failed past' last t' hs hf hsoon =>
    obtain ⟨rfl, ht⟩ := List.append_inj' hp rfl
    obtain rfl := List.singleton_inj.mp ht
    exact .inr ⟨hf, last, by simp, hsoon, hs⟩

/-- How an election stands after the ticks of `past`: it leads exactly in a streak, and takes the end of the streak
for the time when the lease was last held. -/
structure Stands (past : List Ended) (e : Election) : Prop where
  leads_iff : e.leads = true ↔ ∃ r, Streak c r past
  lastHeld : e.leads = true → e.lastHeld = past.getLast?.map Ended.moment

theorem stands_start : Stands c [] (start c) where
  leads_iff := by
    constructor
    · intro h
      simp [start] at h
    · rintro ⟨r, h⟩
      generalize hp : ([] : List Ended) = past at h
      cases h <;> simp at hp
  lastHeld h := by simp [start] at h

/-- After a tick that the candidate counts as holding the lease. -/
theorem Stands.of_streak {past : List Ended} {t r : Ended} (h : Streak c r (past ++ [t])) (e : Election) :
    Stands c (past ++ [t]) { e with leads := true, lastHeld := some t.moment } where
  leads_iff := ⟨fun _ => ⟨r, h⟩, fun _ => rfl⟩
  lastHeld _ := by simp

/-- After a tick that the candidate does not count as holding the lease: it does not lead. -/
theorem Stands.of_no_streak {past : List Ended} (h : ¬ ∃ r, Streak c r past) (e : Election) :
    Stands c past (if e.leads then { e with leads := false, lost := true, running := false } else e) := by
  have hleads : (if e.leads then { e with leads := false, lost := true, running := false } else e).leads = false := by
    split
    · rfl
    · simpa using ‹¬ e.leads = true›
  exact ⟨⟨fun h' => by simp [hleads] at h', fun h' => absurd h' h⟩, fun h' => by simp [hleads] at h'⟩

/-- A failure is survived exactly when it prolongs a streak. -/
theorem Stands.mayStillHold_iff {past : List Ended} {e : Election} (h : Stands c past e) {t : Ended}
    (ht : t.fails = true) : e.mayStillHold c t.moment = true ↔ ∃ r, Streak c r (past ++ [t]) := by
  constructor
  · intro hm
    simp only [mayStillHold, Bool.and_eq_true] at hm
    obtain ⟨hleads, hat⟩ := hm
    obtain ⟨r, hs⟩ := h.leads_iff.mp hleads
    rw [h.lastHeld hleads] at hat
    rcases List.eq_nil_or_concat past with rfl | ⟨before, last, rfl⟩
    · simp at hat
    · simp only [List.concat_eq_append] at hs hat ⊢
      refine ⟨r, .failed before last t hs ht ?_⟩
      simpa [Ended.soonAfter] using hat
  · rintro ⟨r, hs⟩
    rcases hs.last with hr | ⟨-, last, hlast, hsoon, hs'⟩
    · simp [Ended.not_renews_of_fails ht] at hr
    · have hleads := h.leads_iff.mpr ⟨r, hs'⟩
      have : t.moment.nanos - last.moment.nanos < c.leaseDuration.nanos := hsoon
      simp [mayStillHold, hleads, h.lastHeld hleads, hlast, this]

/-- Counting one more tick, whose outcome agrees with what was exchanged. -/
theorem Stands.count {past : List Ended} {e : Election} (h : Stands c past e) (t : Ended)
    (ht : t.outcome = .ok () ↔ t.renews = true) : Stands c (past ++ [t]) (e.count c t.moment t.outcome) := by
  rcases ho : t.outcome with err | ⟨⟩
  · have hr : t.renews = false := by
      rw [← Bool.not_eq_true, ← ht, ho]
      simp
    cases err with
    | held holder =>
      have hnone : ¬ ∃ r, Streak c r (past ++ [t]) := by
        rintro ⟨r, hs⟩
        rcases hs.last with hr' | ⟨hf, -⟩
        · simp [hr] at hr'
        · simp [Ended.fails, ho] at hf
      exact .of_no_streak c hnone e
    | api _ | durationTooLarge =>
      have hmay := h.mayStillHold_iff c (t := t) (by simp [Ended.fails, hr, ho])
      by_cases hm : e.mayStillHold c t.moment = true
      · obtain ⟨r, hs⟩ := hmay.mp hm
        simpa [Election.count, holdsAfter, hm] using Stands.of_streak c hs e
      · simpa [Election.count, holdsAfter, hm] using Stands.of_no_streak c (mt hmay.mpr hm) e
  · exact .of_streak c (.renewed past (ht.mp ho)) e

theorem tick_of_ended {e : Election} {time : Instant} (now : Duration) {world : σ} {outcome : Except ClaimError Unit}
    {s : σ × Api.Record} (hrun : e.running = true)
    (h : (c.claim time).serve (Api.recorded answer) (world, []) = (some (some outcome), s)) :
    (e.tick c answer time now world).1 = e.count c now outcome := by
  have hfst := ((Api.takesNotes_recorded answer).serve (c.claim time) (world, [])).1
  rw [h] at hfst
  unfold tick
  rw [if_pos hrun]
  rcases hs : (c.claim time).serve answer world with ⟨_ | _ | o, world'⟩ <;> rw [hs] at hfst <;> simp_all

/-- The election leads after a tick of its history exactly when the history up to it ends in a streak. -/
theorem leads_iff_streak {before : List Ended} {e : Election} (hs : Stands c before e) (world : σ)
    (ticks : List (Instant × Duration)) {past : List Ended} {t : Ended}
    (h : past ++ [t] <+: history c answer e world ticks) :
    t.leads = true ↔ ∃ r, Streak c r (before ++ past ++ [t]) := by
  induction ticks generalizing e world before past with
  | nil => simp [history] at h
  | cons tick rest ih =>
    obtain ⟨time, now⟩ := tick
    rw [history] at h
    split at h
    · rename_i outcome world₁ exchanges hserve
      split at h
      · rename_i hrun
        have hcount := tick_of_ended c answer now hrun hserve
        generalize e.tick c answer time now world = after at h hcount
        obtain ⟨after, world'⟩ := after
        simp only at h hcount
        subst hcount
        have hstep : Stands c (before ++ [_]) (e.count c now outcome) :=
          hs.count c ⟨now, exchanges, outcome, (e.count c now outcome).leads⟩
            (c.claim_ok_iff_renewed answer time world world₁ exchanges outcome hserve)
        cases past with
        | nil =>
          obtain ⟨rfl, -⟩ := List.cons_prefix_cons.mp h
          simpa using hstep.leads_iff
        | cons first past =>
          obtain ⟨rfl, hrest⟩ := List.cons_prefix_cons.mp h
          simpa using ih hstep world' hrest
      · simp at h
    · simp at h

/-! ## §3 Fencing -/

/-- The candidate is fenced along a run of ticks exactly when no streak of failures grows as old as the lease. -/
theorem isFenced_iff_streaks_short (world : σ) (ticks : List (Instant × Duration)) :
    IsFenced c (history c answer (start c) world ticks) ↔
      StreaksAreShort c (history c answer (start c) world ticks) := by
  constructor
  · intro hf past r t hpre hs
    have hleads : t.leads = true :=
      (leads_iff_streak c answer (stands_start c) world ticks hpre).mpr ⟨r, hs⟩
    obtain ⟨r', hr', hsoon⟩ := hf past t hpre hleads
    obtain rfl : r = r' := Option.some.inj ((hs.lastRenewal c).symm.trans hr')
    exact hsoon
  · intro hshort past t hpre hleads
    obtain ⟨r, hs⟩ := (leads_iff_streak c answer (stands_start c) world ticks hpre).mp hleads
    exact ⟨r, hs.lastRenewal c, hshort past r t hpre hs⟩

/-- A server that accepts one claim and cannot be reached after that. -/
def onceReachable (_ : Api.Request) (asked : Nat) : Option Api.Response × Nat :=
  (some (if asked < 2 then .answered 200 "\x7b\x7d" else .unreachable "connection refused"), asked + 1)

/-- A candidate whose lease is good for fifteen seconds and is renewed every five. -/
def steadyCandidate : Candidate :=
  { identity := "replica-a", leaseName := "lock", leaseNamespace := "gc"
    leaseDuration := Duration.ofSecs 15, renewInterval := Duration.ofSecs 5 }

/-- Its first four ticks. -/
def steadyTicks : List (Instant × Duration) :=
  [0, 5, 10, 15].map fun s => (⟨(s : Nat), 0⟩, Duration.ofSecs s)

/-- Fifteen seconds after its only renewal the candidate still leads: three failures have each passed for a
renewal. -/
theorem not_isFenced_onceReachable :
    ¬ IsFenced steadyCandidate (history steadyCandidate onceReachable (start steadyCandidate) 0 steadyTicks) := by
  intro hfenced
  generalize hh : history steadyCandidate onceReachable (start steadyCandidate) 0 steadyTicks = h at hfenced
  have hend : h.getLast?.map (fun t => (t.leads, t.moment)) = some (true, Duration.ofSecs 15) := by
    rw [← hh]
    decide +kernel
  have hrenewal : (lastRenewal? h).map Ended.moment = some (Duration.ofSecs 0) := by
    rw [← hh]
    decide +kernel
  obtain ⟨t, ht, hlast⟩ := Option.map_eq_some_iff.mp hend
  obtain ⟨past, rfl⟩ := List.getLast?_eq_some_iff.mp ht
  obtain ⟨hleads, hmoment⟩ := Prod.mk.inj hlast
  obtain ⟨r, hr, hsoon⟩ := hfenced past t (List.prefix_refl _) hleads
  rw [hr, Option.map_some, Option.some.injEq] at hrenewal
  rw [Ended.soonAfter, hmoment, hrenewal] at hsoon
  exact absurd hsoon (by decide)

end Reaper.Election
