import Reaper.Proofs.Pass.Replies
import Reaper.Proofs.Pass.Rota

/-!
Which reply a turn brings.

In a schedule that has not been cancelled a turn suits the stage of its deletion: it brings the reply that is meant for the
call that is under way (`Arranged`). So if the backend answers by a script (`Answers`), each call gets its own reply,
whatever happens to the other deletions in between (`inStep_of_reaches`).

  §1 Backends  — backends that answer by a script.
  §2 Schedules — the turns that are to come, and the replies that they bring.
-/

namespace Reaper

/-- The turn fits the stage of its deletion, and a reply is the one that the script has for the call. -/
def Turn.Suits (script : Nat → Nat → Reply) (p : Pass) : Turn → Prop
  | resume i => ∃ s, p.stages[i]? = some s ∧ s.canResume = true
  | deliver i r => ∃ n, p.stages[i]? = some (.calling (n + 1)) ∧ r = script i n

theorem Turn.Suits.fits {script : Nat → Nat → Reply} {p : Pass} {t : Turn} (h : t.Suits script p) : t.Fits p := by
  cases t with
  | resume i => exact h
  | deliver i r =>
    obtain ⟨n, hs, -⟩ := h
    exact ⟨n + 1, hs⟩

theorem Turn.Suits.congr {script : Nat → Nat → Reply} {p q : Pass} {t : Turn} (h : t.Suits script p)
    (hstage : q.stages[t.deletion]? = p.stages[t.deletion]?) : t.Suits script q := by
  cases t with
  | resume i =>
    obtain ⟨s, hs, hresume⟩ := h
    exact ⟨s, hstage.trans hs, hresume⟩
  | deliver i r =>
    obtain ⟨n, hs, hr⟩ := h
    exact ⟨n, hstage.trans hs, hr⟩

/-! ## §1 Backends -/

/-- The call of a deletion of a plan. -/
def PassPlan.callOf (plan : PassPlan) (i : Nat) : DeleteCall := (plan.deletions[i]?.getD default).call

/-- The backend answers each call of a deletion by its script. It knows how many calls of the deletion it has answered,
and neither the calls of others nor the reports of failures change that. -/
structure DeleteBackend.Answers {σ : Type} (backend : DeleteBackend σ) (plan : PassPlan) (script : Nat → Nat → Reply)
    (answered : σ → Nat → Nat) : Prop where
  reply : ∀ i < plan.deletions.size, ∀ world now,
    (backend.answer world now (plan.callOf i)).1.1 = script i (answered world i)
  own : ∀ i < plan.deletions.size, ∀ world now,
    answered (backend.answer world now (plan.callOf i)).2 i = answered world i + 1
  other : ∀ i < plan.deletions.size, ∀ j < plan.deletions.size, j ≠ i → ∀ world now,
    answered (backend.answer world now (plan.callOf i)).2 j = answered world j
  failed : ∀ world d message, ∀ i < plan.deletions.size, answered (backend.failed world d message) i = answered world i

namespace Schedule

variable {σ : Type} {plan : PassPlan} {backend : DeleteBackend σ} {script : Nat → Nat → Reply}
  {answered : σ → Nat → Nat} {s v : Schedule σ}

/-! ## §2 Schedules -/

/-- Every deletion has at most one turn to come, one that suits its stage, and the backend has answered all calls that
were begun. -/
structure Arranged (plan : PassPlan) (script : Nat → Nat → Reply) (answered : σ → Nat → Nat) (s : Schedule σ) : Prop where
  nodup : (s.pending.map Turn.deletion).Nodup
  suits : ∀ t ∈ s.pending, t.Suits script s.pass
  answered_eq : ∀ i < plan.deletions.size, answered s.world i = s.pass.callsOf i

/-- After a turn, before it is arranged what follows: everybody but its deletion has at most one turn to come. -/
structure Unarranged (plan : PassPlan) (script : Nat → Nat → Reply) (answered : σ → Nat → Nat) (i : Nat)
    (s : Schedule σ) : Prop where
  nodup : (i :: s.pending.map Turn.deletion).Nodup
  suits : ∀ t ∈ s.pending, t.Suits script s.pass
  answered_eq : ∀ j < plan.deletions.size, s.pass.callsOf j =
    answered s.world j + if j = i ∧ s.pass.stages[i]?.any Stage.isCalling = true then 1 else 0
  counted : s.pass.Counted
  size : s.pass.stages.size = plan.deletions.size

/-- What follows on a turn is one more turn for the same deletion, or none. -/
theorem Unarranged.arranged_of_perm {i : Nat} (h : Unarranged plan script answered i s) {t : Turn} (hi : t.deletion = i)
    (hperm : v.pending.Perm (t :: s.pending)) (hpass : v.pass = s.pass) (ht : t.Suits script s.pass)
    (hanswered : ∀ j < plan.deletions.size, answered v.world j = s.pass.callsOf j) : Arranged plan script answered v where
  nodup := by
    refine (hperm.map Turn.deletion).nodup_iff.mpr ?_
    rw [List.map_cons, hi]
    exact h.nodup
  suits u hu := by
    rw [hpass]
    rcases List.mem_cons.mp (hperm.mem_iff.mp hu) with rfl | hu
    · exact ht
    · exact h.suits u hu
  answered_eq := hpass ▸ hanswered

theorem Unarranged.arranged_of_none {i : Nat} (h : Unarranged plan script answered i s) (hpending : v.pending = s.pending)
    (hpass : v.pass = s.pass) (hanswered : ∀ j < plan.deletions.size, answered v.world j = s.pass.callsOf j) :
    Arranged plan script answered v where
  nodup := hpending ▸ (List.nodup_cons.mp h.nodup).2
  suits u hu := by
    rw [hpass]
    exact h.suits u (hpending ▸ hu)
  answered_eq := hpass ▸ hanswered

/-- Unless the deletion has begun a call, all calls have been answered. -/
theorem Unarranged.answered_of_quiet {i : Nat} (h : Unarranged plan script answered i s)
    (hquiet : ∀ stage, s.pass.stages[i]? = some stage → stage.isCalling = false) (j : Nat)
    (hj : j < plan.deletions.size) : answered s.world j = s.pass.callsOf j := by
  have hnobody : s.pass.stages[i]?.any Stage.isCalling = false := by
    cases hs : s.pass.stages[i]? with
    | none => rfl
    | some stage => exact hquiet stage hs
  simpa [hnobody] using (h.answered_eq j hj).symm

/-- Arranging what follows on a turn. -/
theorem Unarranged.follow (hbackend : backend.Answers plan script answered) {i : Nat}
    (h : Unarranged plan script answered i s) : Arranged plan script answered (follow plan backend i s) := by
  have hpass : (Schedule.follow plan backend i s).pass = s.pass := follow_pass ..
  obtain ⟨n, r, delay, hs, hanswer, hperm⟩ | ⟨stage, wake, hs, hwake, hworld, hperm⟩ |
    ⟨message, hs, hworld, hpending⟩ | ⟨hquiet, hworld, hpending⟩ := follow_cases plan backend i s
  · have hi : i < plan.deletions.size := by
      rw [← h.size]
      exact (Array.getElem?_eq_some_iff.mp hs).1
    have hcalls : s.pass.callsOf i = answered s.world i + 1 := by
      simpa [hs, Stage.isCalling] using h.answered_eq i hi
    have hn : n = answered s.world i + 1 := by
      obtain ⟨hn, -⟩ : n = s.pass.callsOf i ∧ 0 < s.pass.callsOf i := h.counted i _ hs
      rw [hn, hcalls]
    have hr : r = script i (answered s.world i) := by
      rw [← hbackend.reply i hi s.world s.clock]
      exact congrArg (·.1.1) hanswer.symm
    have hworld : (backend.answer s.world s.clock (plan.callOf i)).2 = (Schedule.follow plan backend i s).world :=
      congrArg (·.2) hanswer
    refine h.arranged_of_perm (t := .deliver i r) rfl hperm hpass ⟨_, hn ▸ hs, hr⟩ fun j hj => ?_
    rw [← hworld]
    by_cases hji : j = i
    · rw [hji, hbackend.own i hi, hcalls]
    · rw [hbackend.other i hi j hj hji]
      simpa [hji] using (h.answered_eq j hj).symm
  · have hstage : stage.isCalling = false := by cases stage <;> first | rfl | cases hwake
    refine h.arranged_of_perm (t := .resume i) rfl hperm hpass ⟨stage, hs, canResume_of_wake hwake⟩ ?_
    rw [hworld]
    exact h.answered_of_quiet fun stage' hs' => by cases hs.symm.trans hs'; exact hstage
  · refine h.arranged_of_none hpending hpass fun j hj => ?_
    rw [hworld, hbackend.failed s.world _ message j hj]
    exact h.answered_of_quiet (fun stage hs' => by cases hs.symm.trans hs'; rfl) j hj
  · refine h.arranged_of_none hpending hpass ?_
    rw [hworld]
    exact h.answered_of_quiet fun stage hs => (hquiet stage hs).1

/-- Taking a turn, before it is arranged what follows. -/
theorem Arranged.turn (h : Arranged plan script answered s) (hagree : Pass.SlotsAgree plan.slots s.pass) {t : Turn}
    {ready : List Turn} (hready : s.ready = t :: ready) (hcounted : (s.pass.step plan t.event).Counted)
    (hsize : (s.pass.step plan t.event).stages.size = plan.deletions.size) (peak : Nat) :
    Unarranged plan script answered t.deletion
      { s with pass := s.pass.step plan t.event, ready := ready ++ handedTo s.pass t, peak } := by
  have hfits : ∀ u ∈ s.pending, u.Fits s.pass := fun u hu => (h.suits u hu).fits
  obtain ⟨hnodup, hrest⟩ := pending_turn plan hagree h.nodup hfits hready peak
  have ht : t ∈ s.pending := by simp [pending, hready]
  refine ⟨hnodup, fun u hu => ?_, fun j hj => ?_, hcounted, hsize⟩
  · obtain ⟨j, m, rfl, hgranted⟩ | ⟨hold, hsame⟩ := hrest u hu
    · exact ⟨_, hgranted, rfl⟩
    · exact (h.suits u hold).congr hsame
  · rw [(Pass.turned_step hagree (hfits t ht)).callsOf j, ← h.answered_eq j hj]

/-- What holds along a schedule as long as it is not cancelled, if the backend answers by a script. -/
structure InStep (plan : PassPlan) (script : Nat → Nat → Reply) (answered : σ → Nat → Nat) (s : Schedule σ) : Prop where
  arranged : Arranged plan script answered s
  agree : Pass.SlotsAgree plan.slots s.pass
  counted : s.pass.Counted
  size : s.pass.stages.size = plan.deletions.size
  follows : Pass.FollowsScript plan script s.pass
  uncancelled : s.pass.cancelled = false

/-- What is known of the pass stays known along its changes. -/
theorem InStep.of_changes (h : InStep plan script answered s) (hdry : plan.dryRun = false)
    (hchanges : Pass.Changes plan (Pass.Given script) s.pass v.pass) (harranged : Arranged plan script answered v)
    (hcancelled : v.pass.cancelled = false) : InStep plan script answered v where
  arranged := harranged
  agree := hchanges.keeps (fun _ _ h hc => h.change hc) h.agree
  counted := hchanges.keeps (fun _ _ h hc => h.change hc) h.counted
  size := hchanges.keeps (Q := fun p => p.stages.size = plan.deletions.size)
    (fun _ _ h hc => hc.moves.keeps (fun _ _ h hm => hm.size_stages.trans h) h) h.size
  follows := Pass.followsScript_changes hdry h.follows hchanges
  uncancelled := hcancelled

/-- The turns to come are given what the script has for them. -/
theorem changes_of_suits {p : Pass} {t : Turn} (h : t.Suits script p) :
    Pass.Changes plan (Pass.Given script) p (p.step plan t.event) := by
  refine Pass.step_changes p t.event fun i r n hevent hs => ?_
  cases t with
  | resume j => cases hevent
  | deliver j r' =>
    cases hevent
    obtain ⟨m, hs', hr⟩ := h
    cases hs.symm.trans hs'
    exact ⟨m, rfl, hr⟩

theorem InStep.act (hbackend : backend.Answers plan script answered) (hdry : plan.dryRun = false)
    (h : InStep plan script answered s) {t : Turn} {ready : List Turn} (hready : s.ready = t :: ready)
    (hcancelled : (Schedule.act plan backend t { s with ready }).pass.cancelled = false) :
    InStep plan script answered (Schedule.act plan backend t { s with ready }) := by
  have ht : t.Suits script s.pass := h.arranged.suits t (by simp [pending, hready])
  have hchanges : Pass.Changes plan (Pass.Given script) s.pass (s.pass.step plan t.event) := changes_of_suits ht
  refine h.of_changes hdry (by rwa [act_pass]) ?_ hcancelled
  refine Unarranged.follow hbackend (h.arranged.turn h.agree hready ?_ ?_ _)
  · exact hchanges.keeps (fun _ _ h hc => h.change hc) h.counted
  · exact hchanges.keeps (Q := fun p => p.stages.size = plan.deletions.size)
      (fun _ _ h hc => hc.moves.keeps (fun _ _ h hm => hm.size_stages.trans h) h) h.size

/-- When time goes by, and the time for the cancellation has not come, the turns to come are the same. -/
theorem InStep.jump (hdry : plan.dryRun = false) (h : InStep plan script answered s) (t : Millis)
    (hcancelled : (Schedule.jump plan t s).pass.cancelled = false) :
    InStep plan script answered (Schedule.jump plan t s) := by
  have hnever : s.cancellation?.any (· ≤ t) = false := by
    cases hfires : s.cancellation?.any (· ≤ t) with
    | false => rfl
    | true =>
      rw [jump_pass, hfires] at hcancelled
      cases hcancelled
  -- how long the time is that goes by does not matter
  obtain ⟨d, hd⟩ : ∃ d, s.timeUntil t = .advance d := ⟨_, rfl⟩
  have hjump : Schedule.jump plan t s =
      { s with
        pass := s.pass.step plan (.advance d)
        clock := t
        ready := s.ready ++ (s.alarms.filter (·.1 ≤ t)).map (·.2)
        alarms := s.alarms.filter (t < ·.1) } := by
    unfold Schedule.jump
    rw [hnever, ← hd]
    rfl
  have hperm := perm_pending_jump plan hnever
  have hpass : (Schedule.jump plan t s).pass = s.pass.step plan (.advance d) := by rw [hjump]
  refine h.of_changes hdry ?_ ⟨?_, fun u hu => ?_, fun i hi => ?_⟩ hcancelled
  · rw [hpass]
    exact .single (.advance d)
  · exact (hperm.map Turn.deletion).nodup_iff.mpr h.arranged.nodup
  · rw [hpass]
    exact (h.arranged.suits u (hperm.mem_iff.mp hu)).congr rfl
  · rw [hpass, hjump]
    exact h.arranged.answered_eq i hi

/-- At the start every deletion is to be resumed, and nothing has been answered. -/
theorem inStep_start (bucket : Bucket) (clock : Millis) (cancelAt : Option Millis) {world : σ}
    (hanswered : ∀ i < plan.deletions.size, answered world i = 0) :
    InStep plan script answered (start plan bucket clock cancelAt world) where
  arranged :=
    { nodup := (inTurn_start plan bucket clock cancelAt world).nodup
      suits := by
        intro t ht
        obtain ⟨i, hi, rfl⟩ : ∃ i < plan.deletions.size, .resume i = t := by simpa [pending, start] using ht
        exact (inTurn_start plan bucket clock cancelAt world).fits _ ht
      answered_eq := fun i hi => hanswered i hi }
  agree := Pass.slotsAgree_start plan bucket clock.moment
  counted := Pass.counted_start plan bucket clock.moment
  size := by simp [start, Pass.start]
  follows := Pass.followsScript_start plan script bucket clock.moment
  uncancelled := rfl

/-- A schedule that has been cancelled stays so. -/
theorem cancelled_of_step? (hstep : step? plan backend s = some v) (h : v.pass.cancelled = false) :
    s.pass.cancelled = false := by
  cases hs : s.pass.cancelled with
  | false => rfl
  | true =>
    obtain ⟨events, hevents⟩ := events_of_step? hstep
    have hv : (s.pass.run plan events).cancelled = true :=
      (Pass.run_moves s.pass events).keeps (fun _ _ h hm => hm.cancelled h) hs
    rw [hevents, hv] at h
    cases h

/-- All along a schedule that has not been cancelled, each deletion is given its own replies. -/
theorem inStep_of_reaches (hbackend : backend.Answers plan script answered) (hdry : plan.dryRun = false)
    (h : InStep plan script answered s) (hreach : Reaches plan backend s v) (hcancelled : v.pass.cancelled = false) :
    InStep plan script answered v := by
  induction hreach with
  | refl => exact h
  | @tail s v _ hstep ih =>
    have hs := ih (cancelled_of_step? hstep hcancelled)
    obtain ⟨t, ready, hready, rfl⟩ | ⟨t, -, -, rfl⟩ := step?_cases hstep
    · exact hs.act hbackend hdry hready hcancelled
    · exact hs.jump hdry t hcancelled

end Schedule

end Reaper
