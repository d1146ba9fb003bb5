import Reaper.Proofs.Pass.Endings
import Reaper.Proofs.Pass.Progress
import Reaper.Proofs.Pass.Slots

/-!
Passes come to an end.

Every turn of a schedule takes something away from what is left of its pass, and between two jumps there is a turn: so a
schedule takes no more steps than twice as many as there is left (`Going.remaining_lt`). When nothing comes any more, every
deletion has ended or is stranded (`Going.isSettled`). So a pass that is run ends, unless a deletion is stranded on the way
(`run_eq_none_iff`).

  §1 Times — who sleeps is woken, and not too early.
  §2 Steps — what holds all along a schedule, and what a step takes away.
  §3 Ends  — a schedule ends, or strands a deletion.
-/

namespace Reaper

open Rounding (nearest)

/-- The turn is set for a moment: it brings a reply, or resumes a deletion that has slept by then. -/
def Turn.IsSetFor (moment : Duration) (p : Pass) (t : Turn) : Prop :=
  t.isDelivery = true ∨ ∃ s wake, p.stages[t.deletion]? = some s ∧ s.wake? = some wake ∧ wake ≤ moment

namespace Turn

variable {p q : Pass} {t : Turn} {moment later : Duration}

theorem IsSetFor.congr (h : t.IsSetFor moment p) (hstage : q.stages[t.deletion]? = p.stages[t.deletion]?) :
    t.IsSetFor moment q := by
  unfold IsSetFor
  rwa [hstage]

theorem IsDueBy.congr (h : t.IsDueBy moment p) (hstage : q.stages[t.deletion]? = p.stages[t.deletion]?) :
    t.IsDueBy moment q := by
  unfold IsDueBy
  rwa [hstage]

/-- Who does not sleep can have a turn at any time. -/
theorem isDueBy_of_awake {s : Stage} (hs : p.stages[t.deletion]? = some s) (hawake : s.wake? = none) :
    t.IsDueBy moment p := by
  intro s' wake hs' hwake
  cases hs.symm.trans hs'
  rw [hawake] at hwake
  cases hwake

/-- A turn that is set for a moment is due by then. -/
theorem IsSetFor.isDueBy (h : t.IsSetFor moment p) (hfits : t.Fits p) (hle : moment ≤ later) : t.IsDueBy later p := by
  rcases h with hdelivery | ⟨s, wake, hs, hwake, hmoment⟩
  · cases t with
    | resume i => cases hdelivery
    | deliver i r =>
      obtain ⟨n, hn⟩ := hfits
      exact isDueBy_of_awake hn rfl
  · intro s' wake' hs' hwake'
    cases hs.symm.trans hs'
    cases hwake.symm.trans hwake'
    exact Nat.le_trans hmoment hle

end Turn

/-- Some deletion of the pass is stranded. -/
theorem Pass.isStranded_iff {p : Pass} : p.isStranded = true ↔ ∃ i : Nat, p.stages[i]? = some Stage.stranded := by
  unfold isStranded
  rw [Array.any_eq_true']
  constructor
  · rintro ⟨s, hmem, hs⟩
    exact of_decide_eq_true hs ▸ Array.mem_iff_getElem?.mp hmem
  · exact fun hs => ⟨.stranded, Array.mem_iff_getElem?.mpr hs, rfl⟩

/-- Then it has not come to its end. -/
theorem Pass.not_isSettled {p : Pass} (h : p.isStranded = true) : p.isSettled = false := by
  obtain ⟨i, hs⟩ := isStranded_iff.mp h
  refine Bool.eq_false_iff.mpr fun hsettled => ?_
  obtain ⟨d, hd⟩ := exists_settled hsettled (Array.getElem?_eq_some_iff.mp hs).1
  cases hs.symm.trans hd

namespace Pass

variable {plan : PassPlan} {p q : Pass}

/-- Whoever is stranded is to pause for longer than any duration after one of its calls. -/
def StrandsByPause (plan : PassPlan) (p : Pass) : Prop :=
  AtEach (fun i s => s = .stranded → ∃ n, plan.pause i n = none) p

theorem StrandsByPause.change {given : Nat → Nat → Reply → Prop} (hround : plan.round = nearest)
    (hbrisk : p.bucket.Brisk) (h : StrandsByPause plan p) (hc : Change plan given p q) : StrandsByPause plan q := by
  cases hc with
  | advance d => exact h
  | cancel => exact h
  | drop i s d _ _ _ => exact AtEach.put h nofun
  | token i s b _ _ _ _ _ => exact AtEach.seekSlot (p := { p with bucket := b }) h nofun nofun
  | noToken i s s' b taking _ _ _ hrequest _ hnew =>
    rcases hnew with ⟨-, rfl⟩ | ⟨wake, rfl⟩
    · -- the bucket tells no wait that is no duration
      rw [hround] at hrequest
      exact absurd (congrArg (·.2) hrequest) (hbrisk.request p.now).2
    · exact AtEach.put (p := { p with bucket := b }) h nofun
  | begin i n _ => exact AtEach.put h nofun
  | again i n wake _ _ => exact AtEach.seekSlot h nofun nofun
  | answer i n r s' _ _ _ hnew =>
    have hreleased := AtEach.releaseSlot h fun _ _ _ => nofun
    rcases hnew with ⟨rfl, hpause⟩ | ⟨wake, rfl⟩
    · exact AtEach.put hreleased fun _ => ⟨n - 1, hpause⟩
    · exact AtEach.put hreleased nofun
  | answerLast i n r o _ _ _ => exact AtEach.put (AtEach.releaseSlot h fun _ _ _ => nofun) nofun

theorem strandsByPause_run (hround : plan.round = nearest) {bucket : Bucket} (hbrisk : bucket.Brisk) (now : Duration)
    (events : List PassEvent) : StrandsByPause plan ((start plan bucket now).run plan events) := by
  have hstart : StrandsByPause plan (start plan bucket now) := by
    rintro i _ hs rfl
    simp [start] at hs
  exact ((run_changes _ events).keeps (Q := fun p => p.bucket.Brisk ∧ StrandsByPause plan p)
    (fun _ _ h hc => ⟨hc.brisk hround h.1, h.2.change hround h.1 hc⟩) ⟨hbrisk, hstart⟩).2

end Pass

namespace Schedule

variable {σ : Type} {plan : PassPlan} {backend : DeleteBackend σ} {s v : Schedule σ}

/-! ## §1 Times -/

/-- Who has a call under way or sleeps has a turn to come, at its time. -/
structure Timed (s : Schedule σ) : Prop where
  turns : ∀ i stage, s.pass.stages[i]? = some stage → stage.isCalling = true ∨ stage.wake?.isSome = true →
    ∃ t ∈ s.pending, t.deletion = i
  /-- nobody is ready before its sleep is over or cut short -/
  ready : s.pass.cancelled = true ∨ ∀ t ∈ s.ready, t.IsDueBy s.pass.now s.pass
  alarms : ∀ a ∈ s.alarms, a.2.IsSetFor a.1.moment s.pass
  /-- it is a whole millisecond -/
  whole : Duration.perMilli ∣ s.pass.now.nanos

variable (plan backend) in
/-- What is arranged after a turn is at its time. -/
theorem arranged_follow (i : Nat) (s : Schedule σ) :
    (∀ t ∈ (follow plan backend i s).ready, t ∈ s.ready ∨ t.IsDueBy s.pass.now s.pass) ∧
      ∀ a ∈ (follow plan backend i s).alarms, a ∈ s.alarms ∨ a.2.IsSetFor a.1.moment s.pass := by
  have hsame : (∀ t ∈ s.ready, t ∈ s.ready ∨ t.IsDueBy s.pass.now s.pass) ∧
      ∀ a ∈ s.alarms, a ∈ s.alarms ∨ a.2.IsSetFor a.1.moment s.pass := ⟨fun _ => .inl, fun _ => .inl⟩
  unfold follow
  split
  · rename_i n hs
    have hdue (r : Reply) : (Turn.deliver i r).IsDueBy s.pass.now s.pass := Turn.isDueBy_of_awake hs rfl
    split
    · refine ⟨fun t ht => (List.mem_cons.mp ht).symm.imp_right fun hnew => ?_, hsame.2⟩
      rw [hnew]
      exact hdue _
    · split
      · refine ⟨fun t ht => (List.mem_append.mp ht).imp_right fun hnew => ?_, hsame.2⟩
        rw [List.mem_singleton.mp hnew]
        exact hdue _
      · refine ⟨hsame.1, fun a ha => (List.mem_append.mp ha).imp_right fun hnew => ?_⟩
        rw [List.mem_singleton.mp hnew]
        exact .inl rfl
  · exact hsame
  · rename_i stage _ _ hs
    split
    · rename_i wake hwake
      refine ⟨hsame.1, fun a ha => (List.mem_append.mp ha).imp_right fun hnew => ?_⟩
      rw [List.mem_singleton.mp hnew]
      exact .inr ⟨stage, wake, hs, hwake, Millis.le_moment_reaching wake⟩
    · exact hsame
  · exact hsame

/-- Arranging what comes after a turn of a deletion, when everybody else has their turns. -/
theorem timed_follow {i : Nat}
    (hturns : ∀ j stage, j ≠ i → s.pass.stages[j]? = some stage → stage.isCalling = true ∨ stage.wake?.isSome = true →
      ∃ t ∈ s.pending, t.deletion = j)
    (hready : s.pass.cancelled = true ∨ ∀ t ∈ s.ready, t.IsDueBy s.pass.now s.pass)
    (halarms : ∀ a ∈ s.alarms, a.2.IsSetFor a.1.moment s.pass) (hwhole : Duration.perMilli ∣ s.pass.now.nanos) :
    Timed (follow plan backend i s) := by
  obtain ⟨hnewReady, hnewAlarms⟩ := arranged_follow plan backend i s
  -- whoever has a turn keeps it, and what is arranged is a turn of `i`
  have hturn {t : Turn} (ht : t.deletion = i) {j : Nat} {stage : Stage} (hs : s.pass.stages[j]? = some stage)
      (hneeds : stage.isCalling = true ∨ stage.wake?.isSome = true)
      (hperm : (follow plan backend i s).pending.Perm (t :: s.pending)) :
      ∃ t ∈ (follow plan backend i s).pending, t.deletion = j := by
    by_cases hj : j = i
    · exact ⟨t, hperm.mem_iff.mpr List.mem_cons_self, ht.trans hj.symm⟩
    · obtain ⟨u, hu, hdeletion⟩ := hturns j stage hj hs hneeds
      exact ⟨u, hperm.mem_iff.mpr (List.mem_cons_of_mem _ hu), hdeletion⟩
  have hquietly {j : Nat} {stage : Stage} (hs : s.pass.stages[j]? = some stage)
      (hneeds : stage.isCalling = true ∨ stage.wake?.isSome = true)
      (hquiet : ∀ stage, s.pass.stages[i]? = some stage → stage.isCalling = false ∧ stage.wake? = none)
      (hpending : (follow plan backend i s).pending = s.pending) :
      ∃ t ∈ (follow plan backend i s).pending, t.deletion = j := by
    rw [hpending]
    refine hturns j stage (fun hj => ?_) hs hneeds
    obtain ⟨hidle, hawake⟩ := hquiet stage (hj ▸ hs)
    simp [hidle, hawake] at hneeds
  refine ⟨fun j stage hs hneeds => ?_, ?_, ?_, ?_⟩
  · rw [follow_pass] at hs
    obtain ⟨n, r, delay, -, -, hperm⟩ | ⟨stage', wake, -, -, -, hperm⟩ | ⟨message, hfailed, -, hpending⟩ |
      ⟨hquiet, -, hpending⟩ := follow_cases plan backend i s
    · exact hturn (t := .deliver i r) rfl hs hneeds hperm
    · exact hturn (t := .resume i) rfl hs hneeds hperm
    · exact hquietly hs hneeds (fun stage' hs' => by cases hfailed.symm.trans hs'; exact ⟨rfl, rfl⟩) hpending
    · exact hquietly hs hneeds (fun stage' hs' => ⟨(hquiet stage' hs').1, (hquiet stage' hs').2.2⟩) hpending
  · rw [follow_pass]
    exact hready.imp_right fun hold t ht => (hnewReady t ht).elim (hold t) id
  · rw [follow_pass]
    exact fun a ha => (hnewAlarms a ha).elim (halarms a) id
  · rwa [follow_pass]

/-- Who has a call under way or sleeps after a turn of another deletion did so before. -/
theorem Timed.act {total : Nat} (h : Timed s) (hinTurn : InTurn s) (hagree : s.pass.SlotsAgree total) {t : Turn}
    {ready : List Turn} (hready : s.ready = t :: ready) : Timed (act plan backend t { s with ready }) := by
  have hpending := pending_eq_cons hready
  have hfits : t.Fits s.pass := hinTurn.fits t (hpending ▸ List.mem_cons_self)
  have hturned : Pass.Turned t s.pass (s.pass.step plan t.event) := Pass.turned_step hagree hfits
  have hsame {u : Turn} := stage_turn plan hagree hinTurn.nodup hinTurn.fits hready (u := u)
  obtain ⟨hnow, hcancelled⟩ : Pass.SameClock s.pass (s.pass.step plan t.event) := Pass.turn_sameClock ..
  unfold Schedule.act
  refine timed_follow (fun j stage hj hs hneeds => ?_) ?_ (fun a ha => ?_) (hnow ▸ h.whole)
  · by_cases hhanded : ∃ u ∈ handedTo s.pass t, u.deletion = j
    · obtain ⟨u, hu, hdeletion⟩ := hhanded
      exact ⟨u, List.mem_append_left _ (List.mem_append_right _ hu), hdeletion⟩
    · rw [hturned.others j hj fun u hu heq => hhanded ⟨u, hu, heq⟩] at hs
      obtain ⟨u, hu, hdeletion⟩ := h.turns j stage hs hneeds
      rw [hpending] at hu
      refine ⟨u, ?_, hdeletion⟩
      have hrest : u ∈ ready ++ s.alarms.map (·.2) :=
        (List.mem_cons.mp hu).resolve_left fun heq => hj (by rw [← hdeletion, heq])
      exact (List.mem_append.mp hrest).elim (fun hu => List.mem_append_left _ (List.mem_append_left _ hu))
        (List.mem_append_right _)
  · rw [hcancelled, hnow]
    refine h.ready.imp_right fun hdue u hu => ?_
    rcases List.mem_append.mp hu with hold | hhanded
    · exact (hdue u (hready ▸ List.mem_cons_of_mem _ hold)).congr (hsame (List.mem_append_left _ hold))
    · obtain ⟨j, m, rfl, -, -, hgranted⟩ := hturned.handed u hhanded
      exact Turn.isDueBy_of_awake hgranted rfl
  · exact (h.alarms a ha).congr (hsame (List.mem_append_right _ (List.mem_map_of_mem ha)))

/-- Milliseconds are whole. -/
theorem dvd_moment (t : Millis) : Duration.perMilli ∣ t.moment.nanos := by
  simp only [Millis.moment, Duration.ofMillis]
  exact Nat.dvd_mul_left Duration.perMilli t

theorem now_jump (plan : PassPlan) (t : Millis) (s : Schedule σ) :
    (jump plan t s).pass.now.nanos = s.pass.now.nanos + (t.moment.nanos - s.pass.now.nanos) := by
  rw [jump_pass]
  split <;> rfl

theorem Timed.whole_jump (h : Timed s) (t : Millis) : Duration.perMilli ∣ (jump plan t s).pass.now.nanos := by
  rw [now_jump]
  exact (Nat.dvd_add_right h.whole).mpr (Nat.dvd_sub (dvd_moment t) h.whole)

theorem Timed.alarms_jump (h : Timed s) (t : Millis) {a : Millis × Turn} (ha : a ∈ s.alarms) :
    a.2.IsSetFor a.1.moment (jump plan t s).pass :=
  (h.alarms a ha).congr (by rw [jump_stages])

/-- A jump that does not cancel the pass comes to a moment by which the turns are due that become ready. -/
theorem Timed.jump_of_goesOn (h : Timed s) (hinTurn : InTurn s) (hready : s.ready = []) {t : Millis}
    (hnever : s.cancellation?.any (· ≤ t) = false) : Timed (jump plan t s) := by
  have hjump : (jump plan t s).ready = (s.alarms.filter (·.1 ≤ t)).map (·.2) ∧
      (jump plan t s).alarms = s.alarms.filter (t < ·.1) := by
    unfold jump
    rw [hnever, hready]
    exact ⟨rfl, rfl⟩
  refine ⟨fun i stage hs hneeds => ?_, .inr fun u hu => ?_, fun a ha => ?_, h.whole_jump t⟩
  · obtain ⟨u, hu, hdeletion⟩ := h.turns i stage (jump_stages plan t s ▸ hs) hneeds
    exact ⟨u, (perm_pending_jump plan hnever).mem_iff.mpr hu, hdeletion⟩
  · rw [hjump.1] at hu
    obtain ⟨a, ha, rfl⟩ := List.mem_map.mp hu
    obtain ⟨ha, hle⟩ := List.mem_filter.mp ha
    have hfits : a.2.Fits s.pass := hinTurn.fits _ (List.mem_append_right _ (List.mem_map_of_mem ha))
    refine (h.alarms_jump t ha).isDueBy (hfits.congr (by rw [jump_stages])) ?_
    have hmoment : a.1.moment.nanos ≤ t.moment.nanos := Nat.mul_le_mul_right _ (of_decide_eq_true hle)
    show a.1.moment.nanos ≤ _
    rw [now_jump]
    omega
  · rw [hjump.2] at ha
    exact h.alarms_jump t (List.mem_filter.mp ha).1

/-- After a jump that cancels the pass everybody who sleeps is resumed, and the replies are still to come. -/
theorem Timed.jump_of_cancels (h : Timed s) (hready : s.ready = []) {t : Millis}
    (hcancels : s.cancellation?.any (· ≤ t) = true) : Timed (jump plan t s) := by
  refine ⟨fun i stage hs hneeds => ?_, .inl ?_, fun a ha => ?_, h.whole_jump t⟩
  · rw [jump_stages] at hs
    rw [pending_jump_of_cancels plan hcancels hready]
    rcases hneeds with hcalling | hsleeps
    · obtain ⟨u, hu, rfl⟩ := h.turns i stage hs (.inl hcalling)
      have halarm : u ∈ s.alarms.map (·.2) := by
        unfold pending at hu
        rwa [hready] at hu
      obtain ⟨a, ha, rfl⟩ := List.mem_map.mp halarm
      refine ⟨a.2, List.mem_append_right _ (List.mem_map_of_mem (List.mem_filter.mpr ⟨ha, ?_⟩)), rfl⟩
      -- who has a call under way does not sleep
      refine (h.alarms a ha).resolve_right ?_
      rintro ⟨stage', wake, hs', hwake, -⟩
      cases hs.symm.trans hs'
      cases stage with
      | calling n => cases hwake
      | _ => cases hcalling
    · refine ⟨.resume i, List.mem_append_left _ (List.mem_map_of_mem (List.mem_filter.mpr ⟨?_, ?_⟩)), rfl⟩
      · exact List.mem_range.mpr (Array.getElem?_eq_some_iff.mp hs).1
      · rw [hs]
        exact hsleeps
  · rw [jump_cancelled, hcancels, Bool.true_or]
  · have halarms : (jump plan t s).alarms = s.alarms.filter (·.2.isDelivery) := by
      unfold jump
      rw [hcancels]
      rfl
    rw [halarms] at ha
    exact h.alarms_jump t (List.mem_filter.mp ha).1

theorem Timed.jump (h : Timed s) (hinTurn : InTurn s) (hready : s.ready = []) (t : Millis) :
    Timed (Schedule.jump plan t s) := by
  cases hcancels : s.cancellation?.any (· ≤ t) with
  | false => exact h.jump_of_goesOn hinTurn hready hcancels
  | true => exact h.jump_of_cancels hready hcancels

/-- At the start everybody is new. -/
theorem timed_start (plan : PassPlan) (bucket : Bucket) (clock : Millis) (cancelAt : Option Millis) (world : σ) :
    Timed (start plan bucket clock cancelAt world) := by
  have hfresh {i : Nat} {stage : Stage} (hs : (Pass.start plan bucket clock.moment).stages[i]? = some stage) :
      stage = .fresh := by
    simp only [Pass.start, Array.getElem?_map, Option.map_eq_some_iff] at hs
    exact hs.choose_spec.2.symm
  refine ⟨fun i stage hs hneeds => ?_, .inr fun t _ stage wake hs hwake => ?_, fun a ha => absurd ha List.not_mem_nil,
    dvd_moment clock⟩
  · rw [hfresh hs] at hneeds
    simp [Stage.isCalling, Stage.wake?] at hneeds
  · rw [hfresh hs] at hwake
    cases hwake

/-! ## §2 Steps -/

/-- What holds all along a schedule whose bucket fills in good time. -/
structure Going (plan : PassPlan) (s : Schedule σ) : Prop where
  inTurn : InTurn s
  slotsAgree : s.pass.SlotsAgree plan.slots
  poisedReady : s.PoisedReady
  timed : s.Timed
  brisk : s.pass.bucket.Brisk

theorem going_of_reaches {bucket : Bucket} {clock : Millis} {cancelAt : Option Millis} {world : σ}
    (hround : plan.round = nearest) (hbrisk : bucket.Brisk)
    (h : Reaches plan backend (start plan bucket clock cancelAt world) s) : Going plan s := by
  have hagree {s : Schedule σ} (h : Reaches plan backend (start plan bucket clock cancelAt world) s) :
      s.pass.SlotsAgree plan.slots := by
    obtain ⟨events, hevents⟩ := Reaches.events h
    exact hevents ▸ Pass.slotsAgree_run plan bucket _ events
  refine ⟨inTurn_of_reaches h, hagree h, poisedReady_of_reaches h, ?_, ?_⟩
  · induction h with
    | refl => exact timed_start ..
    | @tail s v hreach hstep ih =>
      obtain ⟨t, ready, hready, rfl⟩ | ⟨t, hready, -, rfl⟩ := step?_cases hstep
      · exact ih.act (inTurn_of_reaches hreach) (hagree hreach) hready
      · exact ih.jump (inTurn_of_reaches hreach) hready t
  · obtain ⟨events, hevents⟩ := Reaches.events h
    rw [hevents]
    exact Pass.brisk_run hround hbrisk events

/-- What is left of a schedule: there is a jump between two turns at most, and the cancellation. -/
def remaining (plan : PassPlan) (s : Schedule σ) : Nat :=
  2 * s.pass.toil plan + (if s.ready = [] then 1 else 0) + if s.pass.cancelled then 0 else 1

variable (backend) in
/-- A turn takes something away from what is left of the pass. -/
theorem Going.toil_act_lt (h : Going plan s) (hround : plan.round = nearest) {t : Turn} {ready : List Turn}
    (hready : s.ready = t :: ready) : (act plan backend t { s with ready }).pass.toil plan < s.pass.toil plan := by
  have hmem : t ∈ s.ready := hready ▸ List.mem_cons_self
  rw [act_pass]
  exact Turn.toil_step_lt (h.inTurn.fits t (List.mem_append_left _ hmem)) (h.timed.ready.imp_right (· t hmem))
    h.slotsAgree hround h.brisk h.timed.whole

variable (plan) in
/-- After a jump a turn is ready, or the pass has just been cancelled. -/
theorem jump_cases {t : Millis} (ht : s.next? = some t) :
    (jump plan t s).ready ≠ [] ∧ (jump plan t s).pass.cancelled = s.pass.cancelled ∨
      s.pass.cancelled = false ∧ (jump plan t s).pass.cancelled = true := by
  cases hcancels : s.cancellation?.any (· ≤ t) with
  | false =>
    refine .inl ⟨?_, by rw [jump_cancelled, hcancels, Bool.false_or]⟩
    -- the moment is that of an alarm
    obtain ⟨a, ha, rfl⟩ : ∃ a ∈ s.alarms, a.1 = t := by
      rcases List.mem_append.mp (List.min?_mem ht) with halarm | hcancellation
      · exact List.mem_map.mp halarm
      · rw [Option.mem_toList] at hcancellation
        simp [Option.mem_def.mp hcancellation] at hcancels
    have hdue : a.2 ∈ (jump plan a.1 s).ready := by
      unfold jump
      rw [hcancels]
      exact List.mem_append_right _ (List.mem_map_of_mem (List.mem_filter.mpr ⟨ha, decide_eq_true (Nat.le_refl _)⟩))
    exact List.ne_nil_of_mem hdue
  | true =>
    refine .inr ⟨?_, by rw [jump_cancelled, hcancels, Bool.true_or]⟩
    unfold cancellation? at hcancels
    cases hcancelled : s.pass.cancelled with
    | false => rfl
    | true => simp [hcancelled] at hcancels

theorem Going.remaining_lt (h : Going plan s) (hround : plan.round = nearest) (hstep : step? plan backend s = some v) :
    v.remaining plan < s.remaining plan := by
  obtain ⟨t, ready, hready, rfl⟩ | ⟨t, hready, ht, rfl⟩ := step?_cases hstep
  · have htoil := h.toil_act_lt backend hround hready
    have hcancelled : (act plan backend t { s with ready }).pass.cancelled = s.pass.cancelled := by
      rw [act_pass]
      exact (Pass.turn_sameClock ..).2
    unfold remaining
    rw [hcancelled, if_neg (show s.ready ≠ [] by rw [hready]; exact List.cons_ne_nil t ready)]
    split <;> omega
  · have htoil : (Schedule.jump plan t s).pass.toil plan = s.pass.toil plan :=
      Pass.toil_congr plan (jump_stages plan t s) (jump_bucket plan t s)
    unfold remaining
    rw [htoil, if_pos hready]
    obtain ⟨hnext, hcancelled⟩ | ⟨hbefore, hafter⟩ := jump_cases plan ht
    · rw [hcancelled, if_neg hnext]
      omega
    · rw [hbefore, hafter]
      split <;> simp

/-! ## §3 Ends -/

/-- When nothing comes any more, nobody calls, sleeps or is about to go on. -/
theorem Going.idle (h : Going plan s) (hpending : s.pending = []) {i : Nat} {stage : Stage}
    (hs : s.pass.stages[i]? = some stage) :
    stage.isCalling = false ∧ stage.wake?.isSome = false ∧ stage.isPoised = false := by
  have hnoTurn : ¬∃ t ∈ s.pending, t.deletion = i := by
    rintro ⟨t, ht, -⟩
    rw [hpending] at ht
    cases ht
  refine ⟨Bool.eq_false_iff.mpr fun hcalling => hnoTurn (h.timed.turns i stage hs (.inl hcalling)),
    Bool.eq_false_iff.mpr fun hsleeps => hnoTurn (h.timed.turns i stage hs (.inr hsleeps)),
    Bool.eq_false_iff.mpr fun hpoised => hnoTurn ⟨.resume i, List.mem_append_left _ ?_, rfl⟩⟩
  exact h.poisedReady i ((Option.any_eq_true ..).mpr ⟨stage, hs, hpoised⟩)

/-- When nothing comes any more and nobody is stranded, every deletion has ended. -/
theorem Going.isSettled (h : Going plan s) (hslots : 0 < plan.slots) (hpending : s.pending = [])
    (hstranded : ¬s.pass.isStranded = true) : s.pass.isSettled = true := by
  -- nobody holds a slot, so nobody waits for one either
  have hfree : 0 < s.pass.free := by
    refine h.slotsAgree.free_pos hslots fun i stage hs => ?_
    obtain ⟨hcalling, -, hpoised⟩ := h.idle hpending hs
    cases stage with
    | granted n => cases hpoised
    | calling n => cases hcalling
    | _ => rfl
  refine Array.all_eq_true_iff_forall_mem.mpr fun stage hmem => ?_
  obtain ⟨i, hs⟩ := Array.mem_iff_getElem?.mp hmem
  obtain ⟨hcalling, hsleeps, hpoised⟩ := h.idle hpending hs
  cases stage with
  | settled d => rfl
  | stranded => exact absurd (Pass.isStranded_iff.mpr ⟨i, hs⟩) hstranded
  | awaitingSlot n => exact absurd (h.slotsAgree.free_of_awaitingSlot hs) (Nat.pos_iff_ne_zero.mp hfree)
  | calling n => cases hcalling
  | fresh | granted n => cases hpoised
  | awaitingToken wake | pausing n wake => cases hsleeps

/-- Where no step can be taken there are no turns to come. -/
theorem pending_of_step?_eq_none (h : step? plan backend s = none) : s.pending = [] := by
  unfold step? at h
  split at h
  · cases h
  · rename_i hready
    obtain ⟨halarms, -⟩ := List.append_eq_nil_iff.mp (List.min?_eq_none_iff.mp (Option.map_eq_none_iff.mp h))
    unfold pending
    rw [hready, List.map_eq_nil_iff.mp halarms]
    rfl

/-- A schedule that may take as many steps as there is left ends, or strands a deletion. -/
theorem exists_end (hround : plan.round = nearest) (hslots : 0 < plan.slots) {fuel : Nat}
    (hgoing : ∀ v, Reaches plan backend s v → Going plan v) (hfuel : s.remaining plan ≤ fuel) :
    (∃ v, runFor plan backend fuel s = some v) ∨ ∃ v, Reaches plan backend s v ∧ v.pass.isStranded = true := by
  induction fuel generalizing s with
  | zero =>
    -- there would be a step that takes something away from nothing
    have hready : s.ready ≠ [] := by
      unfold remaining at hfuel
      split at hfuel
      · omega
      · assumption
    obtain ⟨t, ready, hready⟩ := List.exists_cons_of_ne_nil hready
    have hstep : step? plan backend s = some (act plan backend t { s with ready }) := by rw [step?, hready]
    have hless := (hgoing s .refl).remaining_lt hround hstep
    omega
  | succ fuel ih =>
    rw [runFor_succ]
    split
    · rename_i hstranded
      exact .inr ⟨s, .refl, hstranded⟩
    · rename_i hstranded
      split
      · exact .inl ⟨s, rfl⟩
      · rename_i hunsettled
        cases hstep : step? plan backend s with
        | none => exact absurd ((hgoing s .refl).isSettled hslots (pending_of_step?_eq_none hstep) hstranded) hunsettled
        | some w =>
          have hless := (hgoing s .refl).remaining_lt hround hstep
          exact (ih (fun v hv => hgoing v (.head hstep hv)) (by omega)).imp_right fun ⟨v, hv, hstranded⟩ =>
            ⟨v, .head hstep hv, hstranded⟩

/-- A schedule in which every deletion has ended lets time go by, and nothing else. -/
theorem stages_of_isSettled (hinTurn : InTurn s) (hsettled : s.pass.isSettled = true)
    (hstep : step? plan backend s = some v) : v.pass.stages = s.pass.stages := by
  obtain ⟨t, ready, hready, -⟩ | ⟨t, -, -, rfl⟩ := step?_cases hstep
  · have hfits : t.Fits s.pass := hinTurn.fits t (pending_eq_cons hready ▸ List.mem_cons_self)
    obtain ⟨stage, hs⟩ : ∃ stage, s.pass.stages[t.deletion]? = some stage := by
      cases t with
      | resume i => exact hfits.imp fun stage h => h.1
      | deliver i r => exact hfits.elim fun n h => ⟨_, h⟩
    obtain ⟨d, hd⟩ := Pass.exists_settled hsettled (Array.getElem?_eq_some_iff.mp hs).1
    exact absurd hd (Pass.not_settled_of_fits hfits d)
  · exact jump_stages plan t s

/-- As long as a deletion is still to be stranded, not every deletion has ended: they would have to stay so. -/
theorem not_isSettled_of_reaches (hinTurn : ∀ w, Reaches plan backend s w → InTurn w) (hreach : Reaches plan backend s v)
    (hstranded : v.pass.isStranded = true) : ¬s.pass.isSettled = true := by
  intro hsettled
  have hkept : v.pass.stages = s.pass.stages := by
    clear hstranded
    induction hreach with
    | refl => rfl
    | @tail w v hw hstep ih =>
      have hsettled' : w.pass.isSettled = true := by rwa [Pass.isSettled, ih]
      exact (stages_of_isSettled (hinTurn w hw) hsettled' hstep).trans ih
  have hnot := Pass.not_isSettled hstranded
  rw [Pass.isSettled, hkept] at hnot
  exact Bool.eq_false_iff.mp hnot hsettled

/-- A schedule on whose way a deletion is stranded has no end. -/
theorem runFor_eq_none (hinTurn : ∀ w, Reaches plan backend s w → InTurn w) (hreach : Reaches plan backend s v)
    (hstranded : v.pass.isStranded = true) (fuel : Nat) : runFor plan backend fuel s = none := by
  have hunsettled := not_isSettled_of_reaches hinTurn hreach hstranded
  induction fuel generalizing s with
  | zero => rw [runFor, if_neg hunsettled]
  | succ fuel ih =>
    rw [runFor_succ]
    split
    · rfl
    · rename_i hnotyet
      obtain rfl | ⟨w, hstep, hwv⟩ := hreach.cases_head
      · exact absurd hstranded hnotyet
      · have hinTurn' (u : Schedule σ) (hu : Reaches plan backend w u) : InTurn u := hinTurn u (.head hstep hu)
        rw [hstep]
        exact ih hinTurn' hwv (not_isSettled_of_reaches hinTurn' hwv hstranded)

/-- At the start no more is left than the bound. -/
theorem remaining_start_le {bucket : Bucket} (hbrisk : bucket.Brisk) (clock : Millis) (cancelAt : Option Millis)
    (world : σ) : (start plan bucket clock cancelAt world).remaining plan ≤ bound plan bucket := by
  have htoil : (start plan bucket clock cancelAt world).pass.toil plan ≤ _ := Pass.toil_start_le plan hbrisk clock.moment
  unfold remaining bound
  dsimp only
  split <;> split <;> omega

variable {bucket : Bucket} {clock : Millis} {cancelAt : Option Millis} {world : σ}

/-- A pass on whose way a deletion is stranded has no end, however its bucket fills. -/
theorem run_eq_none_of_stranded (hreach : Reaches plan backend (start plan bucket clock cancelAt world) v) {i : Nat}
    (hs : v.pass.stages[i]? = some .stranded) : run plan backend bucket clock cancelAt world = none :=
  runFor_eq_none (fun _ hw => inTurn_of_reaches hw) hreach (Pass.isStranded_iff.mpr ⟨i, hs⟩) _

/-- A pass whose bucket fills in good time has no end if and only if one of its deletions is stranded. -/
theorem run_eq_none_iff (hround : plan.round = nearest) (hslots : 0 < plan.slots) (hbrisk : bucket.Brisk) :
    run plan backend bucket clock cancelAt world = none ↔
      ∃ v i n, Reaches plan backend (start plan bucket clock cancelAt world) v ∧
        v.pass.stages[i]? = some .stranded ∧ plan.pause i n = none := by
  constructor
  · intro hnone
    obtain ⟨v, hv⟩ | ⟨v, hreach, hstranded⟩ := exists_end hround hslots
      (fun v hv => going_of_reaches hround hbrisk hv) (remaining_start_le hbrisk clock cancelAt world)
    · rw [run, hv] at hnone
      cases hnone
    · obtain ⟨i, hs⟩ := Pass.isStranded_iff.mp hstranded
      obtain ⟨events, hevents⟩ := hreach.events
      obtain ⟨n, hpause⟩ := (hevents ▸ Pass.strandsByPause_run hround hbrisk clock.moment events) i _ hs rfl
      exact ⟨v, i, n, hreach, hs, hpause⟩
  · rintro ⟨v, i, -, hreach, hs, -⟩
    exact run_eq_none_of_stranded hreach hs

end Schedule

end Reaper
