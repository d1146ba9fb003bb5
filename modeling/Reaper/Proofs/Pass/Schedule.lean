import Reaper.Pass.Schedule
import Reaper.Proofs.Pass.Moves

/-!
What a schedule makes of its pass.

A schedule is one of the ways in which a pass can go: whatever it does is a sequence of events of the pass
(`Reaches.events`), so what holds of every run of a pass holds along every schedule.

  §1 Steps        — a turn that is taken, or a jump when no turn is left (`step?`). `runFor` goes from step to step,
                    also when it ends without a result.
  §2 Cancellation — the token of a schedule fires at the time that was set for it (`onTime_of_reaches`).
  §3 Notes        — backends that keep notes. The notes change nothing else (`forget_runFor`), so that those of the calls
                    tell which calls were made: calls of the plan, and none in a dry run (`plannedNotes_of_reaches`).
-/

namespace Reaper

namespace DeleteBackend

variable {σ τ : Type}

/-- A backend does the same as another one, and keeps notes while it does. -/
structure Notes (b : DeleteBackend σ) (b' : DeleteBackend (σ × τ)) : Prop where
  answer : ∀ w now call, b.answer w.1 now call = ((b'.answer w now call).1, (b'.answer w now call).2.1)
  failed : ∀ w d message, b.failed w.1 d message = (b'.failed w d message).1

/-- A backend that notes down the calls it is asked to make, the latest first. -/
def noting (b : DeleteBackend σ) : DeleteBackend (σ × List DeleteCall) where
  answer w now call := ((b.answer w.1 now call).1, (b.answer w.1 now call).2, call :: w.2)
  failed w d message := (b.failed w.1 d message, w.2)

end DeleteBackend

/-- No turn takes time, or cancels the pass. -/
theorem Pass.turn_sameClock (plan : PassPlan) (p : Pass) (t : Turn) : SameClock p (p.step plan t.event) := by
  cases t with
  | resume i => exact resume_sameClock plan p i
  | deliver i r => exact reply_sameClock plan p i r

namespace Schedule

variable {σ : Type} {plan : PassPlan} {backend : DeleteBackend σ}

/-! ## §1 Steps -/

abbrev Reaches (plan : PassPlan) (backend : DeleteBackend σ) : Schedule σ → Schedule σ → Prop :=
  Relation.ReflTransGen fun s v => step? plan backend s = some v

theorem step?_cases {s v : Schedule σ} (h : step? plan backend s = some v) :
    (∃ t ready, s.ready = t :: ready ∧ v = act plan backend t { s with ready }) ∨
      ∃ t, s.ready = [] ∧ s.next? = some t ∧ v = jump plan t s := by
  unfold step? at h
  split at h
  · rename_i t ready hready
    exact .inl ⟨t, ready, hready, (Option.some.inj h).symm⟩
  · rename_i hready
    obtain ⟨t, ht, rfl⟩ := Option.map_eq_some_iff.mp h
    exact .inr ⟨t, hready, ht, rfl⟩

/-- As long as a schedule has not ended, running it is running it after one step. -/
theorem runFor_succ (fuel : Nat) (s : Schedule σ) :
    runFor plan backend (fuel + 1) s =
      if s.pass.isStranded then none
      else if s.pass.isSettled then some s
      else (step? plan backend s).bind (runFor plan backend fuel) := by
  rw [runFor]
  unfold step?
  cases s.ready with
  | cons t ready => rfl
  | nil => cases s.next? <;> rfl

/-- A schedule that has been run was reached by steps. -/
theorem reaches_of_runFor {fuel : Nat} {s v : Schedule σ} (h : runFor plan backend fuel s = some v) :
    Reaches plan backend s v := by
  induction fuel generalizing s with
  | zero =>
    obtain ⟨-, rfl⟩ : s.pass.isSettled = true ∧ s = v := by simpa [runFor] using h
    exact .refl
  | succ fuel ih =>
    rw [runFor_succ] at h
    split at h
    · cases h
    · split at h
      · cases h
        exact .refl
      · obtain ⟨next, hstep, hrun⟩ := Option.bind_eq_some_iff.mp h
        exact .head hstep (ih hrun)

/-- A schedule that has been run has ended. -/
theorem isSettled_of_runFor {fuel : Nat} {s v : Schedule σ} (h : runFor plan backend fuel s = some v) :
    v.pass.isSettled = true := by
  induction fuel generalizing s with
  | zero =>
    obtain ⟨hsettled, rfl⟩ : s.pass.isSettled = true ∧ s = v := by simpa [runFor] using h
    exact hsettled
  | succ fuel ih =>
    rw [runFor_succ] at h
    split at h
    · cases h
    · split at h
      · rename_i hsettled
        cases h
        exact hsettled
      · obtain ⟨next, -, hrun⟩ := Option.bind_eq_some_iff.mp h
        exact ih hrun

/-- Arranging what comes after a turn leaves the pass alone. -/
@[simp] theorem follow_pass (i : Nat) (s : Schedule σ) : (follow plan backend i s).pass = s.pass := by
  unfold follow
  split
  · split
    · rfl
    · split <;> rfl
  · rfl
  · split <;> rfl
  · rfl

@[simp] theorem act_pass (t : Turn) (s : Schedule σ) : (act plan backend t s).pass = s.pass.step plan t.event := by
  unfold act
  exact follow_pass ..

def timeUntil (t : Millis) (s : Schedule σ) : PassEvent := .advance ⟨t.moment.nanos - s.pass.now.nanos⟩

theorem run_timeUntil (p : Pass) (t : Millis) (s : Schedule σ) :
    p.run plan [s.timeUntil t] = { p with now := ⟨p.now.nanos + (t.moment.nanos - s.pass.now.nanos)⟩ } := rfl

/-- A jump lets time go by. It also cancels the pass if the time for that has come. -/
theorem jump_pass (plan : PassPlan) (t : Millis) (s : Schedule σ) :
    (jump plan t s).pass =
      if s.cancellation?.any (· ≤ t) then s.pass.run plan [s.timeUntil t, .cancel]
      else s.pass.run plan [s.timeUntil t] := by
  unfold jump
  dsimp only
  split <;> rfl

/-- A jump changes nobody's stage. -/
theorem jump_stages (plan : PassPlan) (t : Millis) (s : Schedule σ) : (jump plan t s).pass.stages = s.pass.stages := by
  -- how long the time is that goes by does not matter
  obtain ⟨d, hd⟩ : ∃ d, s.timeUntil t = .advance d := ⟨_, rfl⟩
  rw [jump_pass, hd]
  split <;> rfl

theorem jump_bucket (plan : PassPlan) (t : Millis) (s : Schedule σ) : (jump plan t s).pass.bucket = s.pass.bucket := by
  obtain ⟨d, hd⟩ : ∃ d, s.timeUntil t = .advance d := ⟨_, rfl⟩
  rw [jump_pass, hd]
  split <;> rfl

/-- After a jump the pass is cancelled if it was before, or the time for that has come. -/
theorem jump_cancelled (plan : PassPlan) (t : Millis) (s : Schedule σ) :
    (jump plan t s).pass.cancelled = (s.cancellation?.any (· ≤ t) || s.pass.cancelled) := by
  obtain ⟨d, hd⟩ : ∃ d, s.timeUntil t = .advance d := ⟨_, rfl⟩
  rw [jump_pass, hd]
  cases s.cancellation?.any (· ≤ t) <;> rfl

theorem events_of_step? {s v : Schedule σ} (h : step? plan backend s = some v) :
    ∃ events, v.pass = s.pass.run plan events := by
  obtain ⟨t, ready, -, rfl⟩ | ⟨t, -, -, rfl⟩ := step?_cases h
  · exact ⟨[t.event], act_pass t _⟩
  · rw [jump_pass]
    split
    · exact ⟨_, rfl⟩
    · exact ⟨_, rfl⟩

/-- Whatever a schedule does is a sequence of events of its pass. -/
theorem Reaches.events {s v : Schedule σ} (h : Reaches plan backend s v) :
    ∃ events, v.pass = s.pass.run plan events := by
  induction h with
  | refl => exact ⟨[], rfl⟩
  | tail _ hstep ih =>
    obtain ⟨before, hbefore⟩ := ih
    obtain ⟨after, hafter⟩ := events_of_step? hstep
    exact ⟨before ++ after, by rw [hafter, hbefore, Pass.run_append]⟩

/-! ## §2 Cancellation -/

/-- How a pass that began as `begun` stands with a token that fires at `cancelAt`: it has not fired, and the time for
that is still to come, or it has fired at that time. -/
inductive OnTime (plan : PassPlan) (begun : Pass) (cancelAt : Option Millis) : Pass → Prop where
  | unfired (events : List PassEvent) : (begun.run plan events).cancelled = false →
      (∀ c, cancelAt = some c → (begun.run plan events).now.nanos < c.moment.nanos) →
      OnTime plan begun cancelAt (begun.run plan events)
  | fired (c : Millis) (before after : List PassEvent) : cancelAt = some c →
      (begun.run plan before).now = c.moment → OnTime plan begun cancelAt (begun.run plan (before ++ .cancel :: after))

/-- Once the token has fired, whatever comes. -/
theorem OnTime.of_fired {begun p : Pass} {c : Millis} {before after : List PassEvent} (events : List PassEvent)
    (hat : (begun.run plan before).now = c.moment) (hp : p = begun.run plan (before ++ .cancel :: after)) :
    OnTime plan begun (some c) (p.run plan events) := by
  rw [hp, ← Pass.run_append, List.append_assoc, List.cons_append]
  exact .fired c before (after ++ events) rfl hat

/-- A turn takes no time, and does not fire the token. -/
theorem OnTime.turn {begun p : Pass} {cancelAt : Option Millis} (h : OnTime plan begun cancelAt p) (t : Turn) :
    OnTime plan begun cancelAt (p.step plan t.event) := by
  have hsame : Pass.SameClock p (p.step plan t.event) := Pass.turn_sameClock plan p t
  cases h with
  | unfired events hcancelled hnow =>
    rw [show Pass.step plan (begun.run plan events) t.event = begun.run plan (events ++ [t.event]) from
      (Pass.run_append begun events [t.event]).symm] at hsame ⊢
    refine .unfired _ (hsame.2.trans hcancelled) fun c hc => ?_
    rw [hsame.1]
    exact hnow c hc
  | fired c before after hc hat =>
    subst hc
    exact .of_fired [t.event] hat rfl

theorem follow_cancelAt (i : Nat) (s : Schedule σ) : (follow plan backend i s).cancelAt = s.cancelAt := by
  unfold follow
  split
  · split
    · rfl
    · split <;> rfl
  · rfl
  · split <;> rfl
  · rfl

theorem cancelAt_of_step? {s v : Schedule σ} (h : step? plan backend s = some v) : v.cancelAt = s.cancelAt := by
  obtain ⟨t, ready, -, rfl⟩ | ⟨t, -, -, rfl⟩ := step?_cases h
  · exact follow_cancelAt ..
  · unfold jump
    dsimp only
    split <;> rfl

/-- Time jumps no farther than to the cancellation that is to come. -/
theorem le_of_next? {s : Schedule σ} {t c : Millis} (ht : s.next? = some t) (hc : s.cancellation? = some c) :
    t ≤ c := by
  unfold next? at ht
  exact (List.min?_eq_some_iff.mp ht).2 c (List.mem_append_right _ (by simp [hc]))

theorem moment_lt {t c : Millis} (h : t < c) : t.moment.nanos < c.moment.nanos :=
  Nat.mul_lt_mul_of_pos_right h (by decide)

/-- A jump reaches the time of the cancellation, or stays before it. -/
theorem OnTime.jump {begun : Pass} {s : Schedule σ} {t : Millis} (h : OnTime plan begun s.cancelAt s.pass)
    (ht : s.next? = some t) : OnTime plan begun s.cancelAt (Schedule.jump plan t s).pass := by
  have hrun := jump_pass plan t s
  generalize hp : s.pass = p at h
  cases h with
  | fired c before after hc hat =>
    rw [hrun, hp, hc]
    split
    · exact .of_fired _ hat rfl
    · exact .of_fired _ hat rfl
  | unfired events hcancelled hnow =>
    have hpending : s.cancellation? = s.cancelAt := by simp [cancellation?, hp, hcancelled]
    -- the pass when time has gone by, before the token fires
    have hlater : (begun.run plan (events ++ [s.timeUntil t])).now.nanos =
        (begun.run plan events).now.nanos + (t.moment.nanos - (begun.run plan events).now.nanos) := by
      rw [Pass.run_append, run_timeUntil, hp]
    rw [hrun, hp, hpending]
    split
    · rename_i hdue
      obtain ⟨c, hc, hct⟩ := (Option.any_eq_true ..).mp hdue
      obtain rfl : c = t := Nat.le_antisymm (by simpa using hct) (le_of_next? ht (hpending.trans hc))
      rw [← Pass.run_append, show events ++ [s.timeUntil c, .cancel] = (events ++ [s.timeUntil c]) ++ [.cancel] by simp]
      refine .fired c _ [] hc ?_
      have hbefore := hnow c hc
      have hreached : (begun.run plan (events ++ [s.timeUntil c])).now.nanos = c.moment.nanos := by omega
      exact congrArg Duration.mk hreached
    · rename_i hdue
      rw [← Pass.run_append]
      refine .unfired _ ?_ fun c hc => ?_
      · rw [Pass.run_append, run_timeUntil]
        exact hcancelled
      · have htc : t < c := by simpa [hc] using hdue
        have hbefore := hnow c hc
        have := moment_lt htc
        omega

/-- A schedule that begins before its cancellation is on time with it. -/
theorem onTime_of_reaches {bucket : Bucket} {clock : Millis} {cancelAt : Option Millis} {world : σ} {v : Schedule σ}
    (hlater : Retry.cancelledBy cancelAt clock = false)
    (h : Reaches plan backend (start plan bucket clock cancelAt world) v) :
    v.cancelAt = cancelAt ∧ OnTime plan (.start plan bucket clock.moment) cancelAt v.pass := by
  induction h with
  | refl =>
    refine ⟨rfl, .unfired [] rfl fun c hc => ?_⟩
    exact moment_lt (by simpa [Retry.cancelledBy, hc] using hlater)
  | @tail s v hr hstep ih =>
    obtain ⟨hat, hs⟩ := ih
    refine ⟨(cancelAt_of_step? hstep).trans hat, ?_⟩
    obtain ⟨t, ready, -, rfl⟩ | ⟨t, -, ht, rfl⟩ := step?_cases hstep
    · rw [act_pass]
      exact hs.turn t
    · subst hat
      exact hs.jump ht

/-! ## §3 Notes -/

section

variable {τ : Type} {backend' : DeleteBackend (σ × τ)}

def forget (s : Schedule (σ × τ)) : Schedule σ := { s with world := s.world.1 }

theorem forget_follow (h : backend.Notes backend') (i : Nat) (s : Schedule (σ × τ)) :
    (follow plan backend' i s).forget = follow plan backend i s.forget := by
  unfold follow forget
  simp only [h.answer, h.failed]
  split
  · rcases backend'.answer s.world s.clock (plan.deletions[i]?.getD default).call with ⟨⟨r, _ | d⟩, world⟩
    · rfl
    · simp only
      split <;> rfl
  · rfl
  · split <;> rfl
  · rfl

theorem forget_act (h : backend.Notes backend') (t : Turn) (s : Schedule (σ × τ)) :
    (act plan backend' t s).forget = act plan backend t s.forget := by
  unfold act
  rw [forget_follow h]
  rfl

theorem forget_jump (t : Millis) (s : Schedule (σ × τ)) : (jump plan t s).forget = jump plan t s.forget := by
  unfold jump
  rw [show s.forget.cancellation? = s.cancellation? from rfl]
  split <;> rfl

theorem forget_step? (h : backend.Notes backend') (s : Schedule (σ × τ)) :
    (step? plan backend' s).map forget = step? plan backend s.forget := by
  unfold step?
  rw [show s.forget.ready = s.ready from rfl]
  cases s.ready with
  | cons t ready => exact congrArg some (forget_act h ..)
  | nil =>
    rw [show s.forget.next? = s.next? from rfl]
    cases s.next? with
    | none => rfl
    | some t => exact congrArg some (forget_jump ..)

theorem forget_runFor (h : backend.Notes backend') (fuel : Nat) (s : Schedule (σ × τ)) :
    (runFor plan backend' fuel s).map forget = runFor plan backend fuel s.forget := by
  induction fuel generalizing s with
  | zero =>
    rw [runFor, runFor, apply_ite (Option.map forget)]
    rfl
  | succ fuel ih =>
    rw [runFor_succ, runFor_succ, ← forget_step? h, show s.forget.pass = s.pass from rfl]
    split
    · rfl
    · split
      · rfl
      · cases step? plan backend' s with
        | none => rfl
        | some v => exact ih v

end

/-- A call is noted when the deletion whose turn it was has a call under way. -/
theorem mem_notes_follow {i : Nat} {s : Schedule (σ × List DeleteCall)} {call : DeleteCall}
    (h : call ∈ (follow plan backend.noting i s).world.2) :
    call ∈ s.world.2 ∨
      (∃ n, s.pass.stages[i]? = some (.calling n)) ∧ call = (plan.deletions[i]?.getD default).call := by
  unfold follow at h
  split at h
  · rename_i n hs
    have hnotes : call ∈ (plan.deletions[i]?.getD default).call :: s.world.2 := by
      split at h
      · rename_i heq
        rwa [← congrArg (·.2.2) heq] at h
      · rename_i heq
        split at h <;> rwa [← congrArg (·.2.2) heq] at h
    rcases List.mem_cons.mp hnotes with rfl | hold
    · exact .inr ⟨⟨n, hs⟩, rfl⟩
    · exact .inl hold
  · exact .inl h
  · split at h <;> exact .inl h
  · exact .inl h

/-- The calls that were noted are calls of the plan, which is not for a dry run. -/
def PlannedNotes (plan : PassPlan) (notes : List DeleteCall) : Prop :=
  ∀ call ∈ notes, plan.dryRun = false ∧ ∃ d ∈ plan.deletions, d.call = call

/-- A deletion of a running pass that has a call under way is one of the plan, which is not for a dry run. -/
theorem planned_of_calling {bucket : Bucket} {now : Duration} {events : List PassEvent} {i n : Nat}
    (h : ((Pass.start plan bucket now).run plan events).stages[i]? = some (.calling n)) :
    plan.dryRun = false ∧ ∃ d ∈ plan.deletions, d = plan.deletions[i]?.getD default := by
  constructor
  · cases hdry : plan.dryRun with
    | false => rfl
    | true => simpa using Pass.dryStages_run hdry bucket now events i _ h
  · obtain ⟨hi, -⟩ := Array.getElem?_eq_some_iff.mp h
    rw [Pass.size_stages_run] at hi
    exact ⟨plan.deletions[i], Array.getElem_mem hi, by simp [hi]⟩

/-- All calls that are made from the start of a schedule on are calls of the plan. -/
theorem plannedNotes_of_reaches {bucket : Bucket} {clock : Millis} {cancelAt : Option Millis} {world : σ}
    {v : Schedule (σ × List DeleteCall)}
    (h : Reaches plan backend.noting (start plan bucket clock cancelAt (world, [])) v) :
    PlannedNotes plan v.world.2 := by
  induction h with
  | refl =>
    intro call hcall
    cases hcall
  | @tail s v hr hstep ih =>
    obtain ⟨events, hevents⟩ := Reaches.events (hr.tail hstep)
    obtain ⟨t, ready, -, rfl⟩ | ⟨t, -, -, rfl⟩ := step?_cases hstep
    · intro call hcall
      rcases mem_notes_follow hcall with hold | ⟨⟨n, hcalling⟩, rfl⟩
      · exact ih call hold
      · rw [act_pass] at hevents
        rw [show Pass.step plan s.pass t.event = _ from hevents] at hcalling
        obtain ⟨hdry, d, hd, heq⟩ := planned_of_calling hcalling
        exact ⟨hdry, d, hd, heq ▸ rfl⟩
    · have hworld : (jump plan t s).world = s.world := by
        unfold jump
        dsimp only
        split <;> rfl
      rwa [hworld]

end Schedule

end Reaper
