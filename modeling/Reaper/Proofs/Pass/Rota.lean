import Reaper.Proofs.Pass.Changes
import Reaper.Proofs.Pass.Schedule

/-!
Whose turn it is.

All along a schedule every deletion has at most one turn to come, and only one that fits its stage: it is resumed when it
can go on, and is brought a reply when it has a call under way (`inTurn_of_reaches`). Who has ended has no turn any more.

  §1 Turns     — what a turn does to the deletion whose turn it is, and to the others.
  §2 Schedules — the turns that are to come.
-/

namespace Reaper

namespace Stage

/-- The deletion can be resumed. -/
def canResume : Stage → Bool
  | fresh | awaitingToken _ | granted _ | pausing .. => true
  | _ => false

end Stage

/-! ## §1 Turns -/

/-- The turn fits the stage of its deletion: who is resumed can go on, and whom a reply is brought has a call under way. -/
def Turn.Fits (p : Pass) : Turn → Prop
  | resume i => ∃ s, p.stages[i]? = some s ∧ s.canResume = true
  | deliver i _ => ∃ n, p.stages[i]? = some (.calling n)

theorem Turn.Fits.congr {p q : Pass} {t : Turn} (h : t.Fits p)
    (hstage : q.stages[t.deletion]? = p.stages[t.deletion]?) : t.Fits q := by
  cases t with
  | resume i =>
    obtain ⟨s, hs, hresume⟩ := h
    exact ⟨s, hstage.trans hs, hresume⟩
  | deliver i r =>
    obtain ⟨n, hs⟩ := h
    exact ⟨n, hstage.trans hs⟩

/-- Who waits for a slot has no turn to come. -/
theorem Turn.Fits.not_awaitingSlot {p : Pass} {t : Turn} (h : t.Fits p) (n : Nat) :
    p.stages[t.deletion]? ≠ some (.awaitingSlot n) := by
  intro hawaits
  cases t with
  | resume i =>
    obtain ⟨s, hs, hresume⟩ := h
    cases hs.symm.trans hawaits
    cases hresume
  | deliver i r =>
    obtain ⟨m, hs⟩ := h
    cases hs.symm.trans hawaits

namespace Pass

variable {plan : PassPlan} {p q : Pass} {i : Nat}

/-- What happens to a pass when nothing but one deletion goes on: a call is begun if it has one under way afterwards. -/
structure GoesOn (i : Nat) (p q : Pass) : Prop where
  others : ∀ j, j ≠ i → q.stages[j]? = p.stages[j]?
  callsOf : ∀ j, q.callsOf j =
    p.callsOf j + if j = i ∧ q.stages[i]?.any Stage.isCalling = true then 1 else 0

/-- A deletion that has no call under way stays where it is. -/
theorem GoesOn.refl {s : Stage} (hs : p.stages[i]? = some s) (hidle : s.isCalling = false) : GoesOn i p p where
  others _ _ := rfl
  callsOf j := by simp [hs, hidle]

theorem GoesOn.put (p : Pass) (i : Nat) {s : Stage} (hs : s.isCalling = false) : GoesOn i p (p.put i s) where
  others j hj := by rw [getElem?_put, if_neg hj.symm]
  callsOf j := by
    rw [getElem?_put, if_pos rfl]
    cases p.stages[i]? <;> simp [hs, Pass.callsOf, Pass.put]

theorem GoesOn.beginCall {s : Stage} (hs : p.stages[i]? = some s) (n : Nat) : GoesOn i p (p.beginCall i n) where
  others j hj := by
    rw [show (p.beginCall i n).stages = (p.put i (.calling n)).stages from rfl, getElem?_put, if_neg hj.symm]
  callsOf j := by
    rw [callsOf_beginCall, show (p.beginCall i n).stages = (p.put i (.calling n)).stages from rfl, getElem?_put,
      if_pos rfl, hs]
    simp [Stage.isCalling, eq_comm]

/-- Only stages and calls matter. -/
theorem GoesOn.congr {p' q' : Pass} (h : GoesOn i p q) (hp : p'.stages = p.stages) (hpcalls : p'.calls = p.calls)
    (hq : q'.stages = q.stages) (hqcalls : q'.calls = q.calls) : GoesOn i p' q' where
  others j hj := by rw [hq, hp, h.others j hj]
  callsOf j := by
    have := h.callsOf j
    unfold Pass.callsOf at this ⊢
    rw [hq, hqcalls, hpcalls, this]

theorem GoesOn.seekSlot {s : Stage} (hs : p.stages[i]? = some s) (n : Nat) : GoesOn i p (p.seekSlot i n) := by
  obtain ⟨-, heq⟩ | ⟨-, heq⟩ := seekSlot_cases p i n
  · rw [heq]
    exact (GoesOn.beginCall hs n).congr rfl rfl rfl rfl
  · rw [heq]
    exact (GoesOn.put p i (s := .awaitingSlot n) rfl).congr rfl rfl rfl rfl

theorem GoesOn.settle (p : Pass) (i : Nat) (d : Disposition) : GoesOn i p (p.settle i d) :=
  (GoesOn.put p i (s := .settled d) rfl).congr rfl rfl rfl rfl

/-- What goes on from a stage without a call goes on from before it was put there. -/
theorem GoesOn.after_put {s : Stage} (h : GoesOn i (p.put i s) q) : GoesOn i p q where
  others j hj := by rw [h.others j hj, getElem?_put, if_neg hj.symm]
  callsOf j := h.callsOf j

theorem goesOn_attempt {s : Stage} (hs : p.stages[i]? = some s) (n : Nat) : GoesOn i p (p.attempt plan i n) := by
  unfold attempt RetryState.start
  cases p.cancelled with
  | true => exact .settle p i _
  | false => exact .seekSlot hs (n + 1)

theorem goesOn_seekToken {s : Stage} (hs : p.stages[i]? = some s) : GoesOn i p (p.seekToken plan i) := by
  unfold seekToken
  split
  · exact .settle p i _
  · split
    · rename_i b _
      have hattempt : GoesOn i { p with bucket := b } ({ p with bucket := b }.attempt plan i 0) :=
        goesOn_attempt (p := { p with bucket := b }) hs 0
      exact hattempt.congr rfl rfl rfl rfl
    · exact (GoesOn.put p i (s := .awaitingToken _) rfl).congr rfl rfl rfl rfl
    · exact (GoesOn.put p i (s := .stranded) rfl).congr rfl rfl rfl rfl

theorem goesOn_resume {s : Stage} (hs : p.stages[i]? = some s) (hresume : s.canResume = true) :
    GoesOn i p (p.resume plan i) := by
  have hstays (hidle : s.isCalling = false) : GoesOn i p p := .refl hs hidle
  unfold resume
  rw [hs]
  cases s with
  | fresh =>
    dsimp only
    split
    · exact .settle p i _
    · split
      · exact .settle p i _
      · exact goesOn_seekToken hs
  | awaitingToken wake =>
    dsimp only
    split
    · exact .settle p i _
    · split
      · exact goesOn_seekToken hs
      · exact hstays rfl
  | granted n => exact .beginCall hs n
  | pausing n wake =>
    dsimp only
    split
    · exact .settle p i _
    · split
      · exact goesOn_attempt hs n
      · exact hstays rfl
  | _ => cases hresume

/-- A deletion whose call is answered goes on after its slot was handed on. -/
theorem goesOn_reply {n : Nat} (hs : p.stages[i]? = some (.calling n))
    (hreleased : p.releaseSlot.stages[i]? = some (.calling n)) (r : Reply) :
    GoesOn i p.releaseSlot (p.reply plan i r) := by
  unfold reply
  rw [hs]
  dsimp only
  obtain ⟨o, hanswered⟩ | hanswered := answered_cases plan.limit n r
  · rw [hanswered]
    exact .settle _ i _
  · rw [hanswered]
    dsimp only
    split
    · exact .put _ i rfl
    · rename_i d _
      have hpaused : (p.releaseSlot.put i (.pausing n (p.releaseSlot.now.sleepEnd d))).stages[i]? =
          some (.pausing n (p.releaseSlot.now.sleepEnd d)) := by
        rw [getElem?_put, if_pos rfl, hreleased]
        rfl
      exact (goesOn_resume hpaused rfl).after_put

/-- What a turn does: its deletion goes on, and who is handed a slot was waiting for one. -/
structure Turned (t : Turn) (p q : Pass) : Prop where
  others : ∀ j, j ≠ t.deletion → (∀ u ∈ Schedule.handedTo p t, u.deletion ≠ j) → q.stages[j]? = p.stages[j]?
  handed : ∀ u ∈ Schedule.handedTo p t, ∃ j m, u = .resume j ∧ j ≠ t.deletion ∧
    p.stages[j]? = some (.awaitingSlot m) ∧ q.stages[j]? = some (.granted m)
  callsOf : ∀ j, q.callsOf j =
    p.callsOf j + if j = t.deletion ∧ q.stages[t.deletion]?.any Stage.isCalling = true then 1 else 0

theorem turned_step {total : Nat} (hagree : SlotsAgree total p) {t : Turn} (h : t.Fits p) :
    Turned t p (p.step plan t.event) := by
  cases t with
  | resume i =>
    obtain ⟨s, hs, hresume⟩ := h
    have hgoes : GoesOn i p (p.resume plan i) := goesOn_resume hs hresume
    have hnobody : ∀ u, u ∉ Schedule.handedTo p (.resume i) := fun u => List.not_mem_nil
    exact ⟨fun j hj _ => hgoes.others j hj, fun u hu => absurd hu (hnobody u), hgoes.callsOf⟩
  | deliver i r =>
    obtain ⟨n, hs⟩ := h
    have hgoes : GoesOn i p.releaseSlot (p.reply plan i r) := goesOn_reply hs (hagree.getElem?_releaseSlot hs) r
    have hcalls (j : Nat) : p.releaseSlot.callsOf j = p.callsOf j := by simp [Pass.callsOf]
    refine ⟨fun j hj hnot => (hgoes.others j hj).trans ?_, fun u hu => ?_, fun j => ?_⟩
    · obtain ⟨-, hrel⟩ | ⟨k, rest, m, hqueue, -, hrel⟩ := hagree.releaseSlot_cases
      · rw [hrel]
      · have hk : k ≠ j := hnot (.resume k) (by simp [Schedule.handedTo, hqueue, Turn.isDelivery])
        rw [hrel]
        exact (getElem?_put p k j (.granted m)).trans (if_neg hk)
    · obtain ⟨hqueue, -⟩ | ⟨k, rest, m, hqueue, hk, hrel⟩ := hagree.releaseSlot_cases
      · simp [Schedule.handedTo, hqueue] at hu
      · obtain rfl : u = .resume k := by simpa [Schedule.handedTo, hqueue, Turn.isDelivery] using hu
        have hne : k ≠ i := by
          rintro rfl
          cases hs.symm.trans hk
        refine ⟨k, m, rfl, hne, hk, (hgoes.others k hne).trans ?_⟩
        rw [hrel, show ({ p.put k (.granted m) with queue := rest } : Pass).stages = (p.put k (.granted m)).stages
          from rfl, getElem?_put, if_pos rfl, hk]
        rfl
    · rw [← hcalls j]
      exact hgoes.callsOf j

end Pass

namespace Schedule

variable {σ : Type} {plan : PassPlan} {backend : DeleteBackend σ} {s v : Schedule σ}

/-! ## §2 Schedules -/

/-- The turns that are to come. -/
def pending (s : Schedule σ) : List Turn := s.ready ++ s.alarms.map (·.2)

/-- A slot is handed to one deletion at most. -/
theorem handedTo_cases (p : Pass) (t : Turn) : handedTo p t = [] ∨ ∃ j, handedTo p t = [.resume j] := by
  unfold handedTo
  split
  · cases p.queue with
    | nil => exact .inl rfl
    | cons j rest => exact .inr ⟨j, rfl⟩
  · exact .inl rfl

/-- The turns that are to come after the one that is taken. -/
theorem pending_eq_cons {t : Turn} {ready : List Turn} (hready : s.ready = t :: ready) :
    s.pending = t :: (ready ++ s.alarms.map (·.2)) := by
  unfold pending
  rw [hready]
  rfl

/-- Who is handed a slot queued for it. -/
theorem awaitingSlot_of_handed {total : Nat} {p : Pass} (hagree : p.SlotsAgree total) {t u : Turn}
    (hu : u ∈ handedTo p t) : ∃ m, p.stages[u.deletion]? = some (.awaitingSlot m) := by
  unfold handedTo at hu
  split at hu
  · obtain ⟨j, hj, rfl⟩ := List.mem_map.mp hu
    have hqueue : j ∈ p.queue := List.mem_of_head? (by simpa using hj)
    obtain ⟨s, hs, hwaits⟩ := (Option.any_eq_true ..).mp ((hagree.mem_queue j).mp hqueue)
    obtain ⟨m, rfl⟩ := Stage.awaitsSlot_iff.mp hwaits
    exact ⟨m, hs⟩
  · cases hu

/-- Who is handed a slot had no turn to come, if every turn to come fits. -/
theorem deletion_ne_of_handed {total : Nat} (hagree : s.pass.SlotsAgree total) (hfits : ∀ t ∈ s.pending, t.Fits s.pass)
    {t u u' : Turn} (hu : u ∈ handedTo s.pass t) (hu' : u' ∈ s.pending) : u.deletion ≠ u'.deletion := by
  intro heq
  obtain ⟨m, hm⟩ := awaitingSlot_of_handed hagree hu
  exact (hfits u' hu').not_awaitingSlot m (heq ▸ hm)

variable (plan) in
/-- A turn leaves everybody else who has one where they are. -/
theorem stage_turn {total : Nat} (hagree : Pass.SlotsAgree total s.pass) (hnodup : (s.pending.map Turn.deletion).Nodup)
    (hfits : ∀ t ∈ s.pending, t.Fits s.pass) {t : Turn} {ready : List Turn} (hready : s.ready = t :: ready) {u : Turn}
    (hu : u ∈ ready ++ s.alarms.map (·.2)) :
    (s.pass.step plan t.event).stages[u.deletion]? = s.pass.stages[u.deletion]? := by
  have hpending := pending_eq_cons hready
  rw [hpending, List.map_cons, List.nodup_cons] at hnodup
  exact (Pass.turned_step hagree (hfits t (hpending ▸ List.mem_cons_self))).others u.deletion
    (fun heq => hnodup.1 (heq ▸ List.mem_map_of_mem hu))
    fun u' hu' => deletion_ne_of_handed hagree hfits hu' (hpending ▸ List.mem_cons_of_mem _ hu)

/-- Where everybody has at most one turn to come, one that fits, it is so after a turn for everybody but its deletion: who
has been handed a slot had none, and nothing has happened to the others. -/
theorem pending_turn (plan : PassPlan) {total : Nat} (hagree : Pass.SlotsAgree total s.pass)
    (hnodup : (s.pending.map Turn.deletion).Nodup) (hfits : ∀ t ∈ s.pending, t.Fits s.pass) {t : Turn}
    {ready : List Turn} (hready : s.ready = t :: ready) (peak : Nat) :
    let v : Schedule σ := { s with pass := s.pass.step plan t.event, ready := ready ++ handedTo s.pass t, peak }
    (t.deletion :: v.pending.map Turn.deletion).Nodup ∧
      ∀ u ∈ v.pending, (∃ j m, u = .resume j ∧ v.pass.stages[j]? = some (.granted m)) ∨
        u ∈ s.pending ∧ v.pass.stages[u.deletion]? = s.pass.stages[u.deletion]? := by
  intro v
  have hpending := pending_eq_cons hready
  have hsame {u : Turn} := stage_turn plan hagree hnodup hfits hready (u := u)
  have ht : t.Fits s.pass := hfits t (hpending ▸ List.mem_cons_self)
  have hturned : Pass.Turned t s.pass (s.pass.step plan t.event) := Pass.turned_step hagree ht
  have hperm : v.pending.Perm (handedTo s.pass t ++ (ready ++ s.alarms.map (·.2))) := by
    simp only [v, pending]
    rw [← List.append_assoc]
    exact List.perm_append_comm.append_right _
  refine ⟨?_, fun u hu => ?_⟩
  · have hold : (t.deletion :: (ready ++ s.alarms.map (·.2)).map Turn.deletion).Nodup := by
      rwa [hpending, List.map_cons] at hnodup
    refine ((hperm.map Turn.deletion).cons _).nodup_iff.mpr ?_
    rcases handedTo_cases s.pass t with hnobody | ⟨j, hj⟩
    · rw [hnobody]
      exact hold
    · have hhanded : .resume j ∈ handedTo s.pass t := by simp [hj]
      obtain ⟨j', m, heq, hne, -⟩ := hturned.handed (.resume j) hhanded
      cases heq
      have hnew : j ∉ (ready ++ s.alarms.map (·.2)).map Turn.deletion := by
        intro hmem
        obtain ⟨u', hu', heq⟩ := List.mem_map.mp hmem
        exact deletion_ne_of_handed hagree hfits hhanded (hpending ▸ List.mem_cons_of_mem _ hu') heq.symm
      rw [hj]
      refine (List.Perm.swap _ _ _).nodup_iff.mpr (List.nodup_cons.mpr ⟨?_, hold⟩)
      rintro (_ | ⟨_, hmem⟩)
      · exact hne rfl
      · exact hnew hmem
  · rcases List.mem_append.mp (hperm.mem_iff.mp hu) with hhanded | hold
    · obtain ⟨j, m, rfl, -, -, hgranted⟩ := hturned.handed u hhanded
      exact .inl ⟨j, m, rfl, hgranted⟩
    · exact .inr ⟨hpending ▸ List.mem_cons_of_mem _ hold, hsame hold⟩

/-- As long as it does not cancel the pass, a jump leaves everybody the turns that are to come. -/
theorem perm_pending_jump (plan : PassPlan) {t : Millis} (h : s.cancellation?.any (· ≤ t) = false) :
    (Schedule.jump plan t s).pending.Perm s.pending := by
  have hsplit : (s.alarms.filter (·.1 ≤ t) ++ s.alarms.filter (t < ·.1)).Perm s.alarms := by
    have hrest : s.alarms.filter (t < ·.1) = s.alarms.filter fun a => !decide (a.1 ≤ t) := by
      refine List.filter_congr fun a _ => ?_
      rw [← decide_not]
      exact decide_eq_decide.mpr Nat.not_le.symm
    rw [hrest]
    exact List.filter_append_perm _ _
  unfold Schedule.jump
  rw [h]
  simp only [pending, Bool.false_eq_true, ↓reduceIte]
  rw [List.append_assoc, ← List.map_append]
  exact (hsplit.map _).append_left _

/-- The deletions that sleep. -/
def sleepers (s : Schedule σ) : List Nat :=
  (List.range s.pass.stages.size).filter fun i => (s.pass.stages[i]?.bind Stage.wake?).isSome

/-- A jump that cancels the pass leaves the replies that are to come, and everybody who sleeps is to be resumed. -/
theorem pending_jump_of_cancels (plan : PassPlan) {t : Millis} (h : s.cancellation?.any (· ≤ t) = true)
    (hready : s.ready = []) :
    (Schedule.jump plan t s).pending = s.sleepers.map .resume ++ (s.alarms.filter (·.2.isDelivery)).map (·.2) := by
  have hstages : (s.pass.step plan (s.timeUntil t)).stages = s.pass.stages := by
    obtain ⟨d, hd⟩ : ∃ d, s.timeUntil t = .advance d := ⟨_, rfl⟩
    rw [hd]
    rfl
  unfold Schedule.jump pending sleepers
  rw [h, ← hstages, hready]
  rfl

/-- What is arranged after a turn of a deletion: it is brought the reply to its call, or resumed when it has slept, or has
no turn any more. That it has failed is reported. -/
theorem follow_cases (plan : PassPlan) (backend : DeleteBackend σ) (i : Nat) (s : Schedule σ) :
    (∃ n r delay, s.pass.stages[i]? = some (.calling n) ∧
      backend.answer s.world s.clock (plan.deletions[i]?.getD default).call =
        ((r, delay), (follow plan backend i s).world) ∧
      (follow plan backend i s).pending.Perm (.deliver i r :: s.pending)) ∨
    (∃ stage wake, s.pass.stages[i]? = some stage ∧ stage.wake? = some wake ∧
      (follow plan backend i s).world = s.world ∧ (follow plan backend i s).pending.Perm (.resume i :: s.pending)) ∨
    (∃ message, s.pass.stages[i]? = some (.settled (.failed message)) ∧
      (follow plan backend i s).world = backend.failed s.world (plan.deletions[i]?.getD default) message ∧
      (follow plan backend i s).pending = s.pending) ∨
    (∀ stage, s.pass.stages[i]? = some stage →
        stage.isCalling = false ∧ (∀ message, stage ≠ .settled (.failed message)) ∧ stage.wake? = none) ∧
      (follow plan backend i s).world = s.world ∧ (follow plan backend i s).pending = s.pending := by
  have hsleeps (wake : Duration) :
      (pending { s with alarms := s.alarms ++ [(Millis.reaching wake, .resume i)] }).Perm (.resume i :: s.pending) := by
    simp only [pending, List.map_append, List.map_cons, List.map_nil, ← List.append_assoc]
    exact List.perm_append_singleton _ _
  unfold Schedule.follow
  cases hs : s.pass.stages[i]? with
  | none => exact .inr (.inr (.inr ⟨fun stage h => (nomatch h), rfl, rfl⟩))
  | some stage =>
    cases stage with
    | calling n =>
      dsimp only
      generalize backend.answer s.world s.clock (plan.deletions[i]?.getD default).call = result
      obtain ⟨⟨r, delay⟩, world⟩ := result
      refine .inl ⟨n, r, delay, rfl, ?_⟩
      cases delay with
      | none => exact ⟨rfl, .refl _⟩
      | some d =>
        dsimp only
        split
        · refine ⟨rfl, ?_⟩
          simp only [pending, List.append_assoc, List.singleton_append]
          exact List.perm_middle
        · refine ⟨rfl, ?_⟩
          simp only [pending, List.map_append, List.map_cons, List.map_nil, ← List.append_assoc]
          exact List.perm_append_singleton _ _
    | settled d =>
      cases d with
      | failed message => exact .inr (.inr (.inl ⟨message, rfl, rfl, rfl⟩))
      | _ => exact .inr (.inr (.inr ⟨by rintro _ ⟨⟩; exact ⟨rfl, nofun, rfl⟩, rfl, rfl⟩))
    | awaitingToken wake | pausing n wake => exact .inr (.inl ⟨_, wake, rfl, rfl, rfl, hsleeps wake⟩)
    | _ => exact .inr (.inr (.inr ⟨by rintro _ ⟨⟩; exact ⟨rfl, nofun, rfl⟩, rfl, rfl⟩))

/-- Every deletion has at most one turn to come, and one that fits its stage. -/
structure InTurn (s : Schedule σ) : Prop where
  nodup : (s.pending.map Turn.deletion).Nodup
  fits : ∀ t ∈ s.pending, t.Fits s.pass

theorem canResume_of_wake {stage : Stage} {wake : Duration} (h : stage.wake? = some wake) : stage.canResume = true := by
  cases stage <;> first | rfl | cases h

/-- At the start every deletion is to be resumed. -/
theorem inTurn_start (plan : PassPlan) (bucket : Bucket) (clock : Millis) (cancelAt : Option Millis) (world : σ) :
    InTurn (start plan bucket clock cancelAt world) where
  nodup := by
    have hdeletions : ((List.range plan.deletions.size).map Turn.resume).map Turn.deletion =
        List.range plan.deletions.size := by
      rw [List.map_map]
      exact List.map_id _
    unfold pending start
    dsimp only
    rw [List.map_nil, List.append_nil, hdeletions]
    exact List.nodup_range
  fits t ht := by
    obtain ⟨i, hi, rfl⟩ : ∃ i < plan.deletions.size, .resume i = t := by simpa [pending, start] using ht
    exact ⟨.fresh, by simp [start, Pass.start, hi], rfl⟩

/-- Arranging what comes after the turn of a deletion that has no other. -/
theorem inTurn_follow {i : Nat} (hnodup : (i :: s.pending.map Turn.deletion).Nodup) (hfits : ∀ t ∈ s.pending, t.Fits s.pass) :
    InTurn (follow plan backend i s) := by
  have hone {t : Turn} (ht : t.Fits s.pass) (hi : t.deletion = i)
      (hperm : (follow plan backend i s).pending.Perm (t :: s.pending)) : InTurn (follow plan backend i s) := by
    refine ⟨(hperm.map Turn.deletion).nodup_iff.mpr (by rwa [List.map_cons, hi]), fun u hu => ?_⟩
    rw [follow_pass]
    rcases List.mem_cons.mp (hperm.mem_iff.mp hu) with rfl | hu
    · exact ht
    · exact hfits u hu
  have hnone (hpending : (follow plan backend i s).pending = s.pending) : InTurn (follow plan backend i s) := by
    refine ⟨hpending ▸ (List.nodup_cons.mp hnodup).2, fun u hu => ?_⟩
    rw [follow_pass]
    exact hfits u (hpending ▸ hu)
  obtain ⟨n, r, delay, hs, -, hperm⟩ | ⟨stage, wake, hs, hwake, -, hperm⟩ | ⟨message, -, -, hpending⟩ |
    ⟨-, -, hpending⟩ := follow_cases plan backend i s
  · exact hone (t := .deliver i r) ⟨n, hs⟩ rfl hperm
  · exact hone (t := .resume i) ⟨stage, hs, canResume_of_wake hwake⟩ rfl hperm
  · exact hnone hpending
  · exact hnone hpending

theorem InTurn.act {total : Nat} (h : InTurn s) (hagree : Pass.SlotsAgree total s.pass) {t : Turn} {ready : List Turn}
    (hready : s.ready = t :: ready) : InTurn (act plan backend t { s with ready }) := by
  obtain ⟨hnodup, hrest⟩ := pending_turn plan hagree h.nodup h.fits hready
    (max s.peak (s.pass.step plan t.event).inFlight)
  unfold Schedule.act
  refine inTurn_follow hnodup fun u hu => ?_
  obtain ⟨j, m, rfl, hgranted⟩ | ⟨hold, hsame⟩ := hrest u hu
  · exact ⟨_, hgranted, rfl⟩
  · exact (h.fits u hold).congr hsame

/-- A jump when no turn is left. If it cancels the pass, sleepers are resumed at once, and not when they have slept. -/
theorem InTurn.jump (h : InTurn s) (hready : s.ready = []) (t : Millis) : InTurn (jump plan t s) := by
  have hfits {u : Turn} (hu : u ∈ s.pending) : u.Fits (Schedule.jump plan t s).pass :=
    (h.fits u hu).congr (by rw [jump_stages])
  cases hcancels : s.cancellation?.any (· ≤ t) with
  | false =>
    have hperm := perm_pending_jump plan hcancels
    exact ⟨(hperm.map Turn.deletion).nodup_iff.mpr h.nodup, fun u hu => hfits (hperm.mem_iff.mp hu)⟩
  | true =>
    have hsleeper {i : Nat} (hi : i ∈ s.sleepers) : ∃ stage wake, s.pass.stages[i]? = some stage ∧
        stage.wake? = some wake := by
      obtain ⟨wake, hwake⟩ := Option.isSome_iff_exists.mp (List.mem_filter.mp hi).2
      obtain ⟨stage, hs, hwake⟩ := Option.bind_eq_some_iff.mp hwake
      exact ⟨stage, wake, hs, hwake⟩
    have hdelivery {u : Turn} (hu : u ∈ (s.alarms.filter (·.2.isDelivery)).map (·.2)) :
        u ∈ s.pending ∧ u.isDelivery = true := by
      obtain ⟨alarm, halarm, rfl⟩ := List.mem_map.mp hu
      obtain ⟨hmem, hdelivery⟩ := List.mem_filter.mp halarm
      exact ⟨List.mem_append_right _ (List.mem_map_of_mem hmem), hdelivery⟩
    have hpending := pending_jump_of_cancels plan hcancels hready
    refine ⟨?_, fun u hu => ?_⟩
    · have hsleepers : (s.sleepers.map Turn.resume).map Turn.deletion = s.sleepers := by
        rw [List.map_map]
        exact List.map_id _
      have hkept : ((s.alarms.filter (·.2.isDelivery)).map (·.2)).Sublist s.pending := by
        unfold pending
        rw [hready]
        exact List.filter_sublist.map _
      rw [hpending, List.map_append, hsleepers]
      refine List.nodup_append.mpr
        ⟨List.nodup_range.filter _, (hkept.map Turn.deletion).nodup h.nodup, fun i hi j hj hij => ?_⟩
      obtain ⟨u, hu, rfl⟩ := List.mem_map.mp hj
      obtain ⟨hmem, hdelivers⟩ := hdelivery hu
      obtain ⟨stage, wake, hs, hwake⟩ := hsleeper hi
      cases u with
      | resume j => cases hdelivers
      | deliver j r =>
        obtain ⟨n, hcalling⟩ := h.fits _ hmem
        rw [hij] at hs
        cases hs.symm.trans hcalling
        cases hwake
    · rw [hpending] at hu
      rcases List.mem_append.mp hu with hsleeps | hdelivers
      · obtain ⟨i, hi, rfl⟩ := List.mem_map.mp hsleeps
        obtain ⟨stage, wake, hs, hwake⟩ := hsleeper hi
        exact ⟨stage, by rwa [jump_stages], canResume_of_wake hwake⟩
      · exact hfits (hdelivery hdelivers).1

theorem inTurn_of_reaches {bucket : Bucket} {clock : Millis} {cancelAt : Option Millis} {world : σ}
    (h : Reaches plan backend (start plan bucket clock cancelAt world) s) : InTurn s := by
  induction h with
  | refl => exact inTurn_start ..
  | @tail s v hreach hstep ih =>
    obtain ⟨events, hevents⟩ := Reaches.events hreach
    have hagree : Pass.SlotsAgree plan.slots s.pass := hevents ▸ Pass.slotsAgree_run plan bucket _ events
    obtain ⟨t, ready, hready, rfl⟩ | ⟨t, hready, -, rfl⟩ := step?_cases hstep
    · exact ih.act hagree hready
    · exact ih.jump hready t

end Schedule

end Reaper
