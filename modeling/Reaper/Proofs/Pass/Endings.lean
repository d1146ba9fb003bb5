import Reaper.Proofs.Pass.Replies
import Reaper.Proofs.Pass.Rota

/-!
How deletions end, and what is reported of it.

A deletion ends for a reason: the pass was cancelled, or is a dry run, or a call of the deletion was answered
(`justified_run`). It ends in a turn of its own and has none afterwards. So what a backend is told of failures is what the
list of the settlements says about them, each once and in the same order (`reports_of_reaches`).

  §1 Reasons  — why deletions end.
  §2 Failures — the failures among the settlements.
  §3 Reports  — what is reported along a schedule.
-/

namespace Reaper

/-- The message of a failure. -/
def Disposition.message? : Disposition → Option String
  | failed message => some message
  | _ => none

/-- No reply ends a deletion as if it had been cancelled. -/
theorem RetryState.ne_cancelled_of_answered {limit n : Nat} {r : Reply} {o : DeleteOutcome}
    (h : answered limit n r = .done o) (k : Nat) : o ≠ .cancelled k := by
  rintro rfl
  unfold answered at h
  split at h
  · cases h
  · split at h
    · cases h
    · cases h
    · split at h <;> cases h

namespace Pass

variable {plan : PassPlan} {p q : Pass}

/-! ## §1 Reasons -/

/-- There is a reason why the deletion has ended so: it was cut short, it was not meant in earnest, or it has made a call
and was answered. -/
def IsJustified (plan : PassPlan) (p : Pass) (i : Nat) (d : Disposition) : Prop :=
  (d = .cancelled ∧ p.cancelled = true) ∨ (d = .dryRun ∧ plan.dryRun = true) ∨
    d ≠ .cancelled ∧ d ≠ .dryRun ∧ 0 < p.callsOf i

/-- All deletions that have ended have a reason for it. -/
def Justified (plan : PassPlan) (p : Pass) : Prop :=
  AtEach (fun i s => ∀ d, s = .settled d → IsJustified plan p i d) p

theorem Moves.callsOf_le (hm : Moves plan p q) (i : Nat) : p.callsOf i ≤ q.callsOf i :=
  hm.calls_suffix.sublist.countP_le

/-- A reason remains one. -/
theorem IsJustified.moves {i : Nat} {d : Disposition} (h : IsJustified plan p i d) (hm : Moves plan p q) :
    IsJustified plan q i d := by
  rcases h with ⟨hd, hcancelled⟩ | hdry | ⟨hcut, hdry, hcalls⟩
  · exact .inl ⟨hd, hm.keeps (fun _ _ h hm => hm.cancelled h) hcancelled⟩
  · exact .inr (.inl hdry)
  · exact .inr (.inr ⟨hcut, hdry, Nat.lt_of_lt_of_le hcalls (hm.callsOf_le i)⟩)

theorem isJustified_of_answered {i n : Nat} {r : Reply} {o : DeleteOutcome}
    (h : RetryState.answered plan.limit n r = .done o) (hcalls : 0 < p.callsOf i) :
    IsJustified plan p i (disposition plan i o) := by
  have hnever := RetryState.ne_cancelled_of_answered h
  refine .inr (.inr ?_)
  cases o with
  | cancelled k => exact absurd rfl (hnever k)
  | _ => exact ⟨nofun, nofun, hcalls⟩

theorem Justified.change {given : Nat → Nat → Reply → Prop} (h : Justified plan p) (hcounted : Counted p)
    (hc : Change plan given p q) : Justified plan q := by
  have hold : AtEach (fun i s => ∀ d, s = .settled d → IsJustified plan q i d) p :=
    AtEach.mono h fun i s hs d hd => (hs d hd).moves hc.moves
  cases hc with
  | advance d => exact hold
  | cancel => exact hold
  | drop i s d hs _ hwhy =>
    refine AtEach.put hold ?_
    rintro _ ⟨⟩
    rcases hwhy with ⟨hcancelled, rfl⟩ | ⟨hdry, -, rfl⟩
    · exact .inl ⟨rfl, hcancelled⟩
    · exact .inr (.inl ⟨rfl, hdry⟩)
  | token i s b _ _ _ _ _ => exact AtEach.seekSlot (p := { p with bucket := b }) hold nofun nofun
  | noToken i s s' b taking _ _ _ _ _ hnew =>
    rcases hnew with ⟨rfl, -⟩ | ⟨wake, rfl⟩
    · exact AtEach.put (p := { p with bucket := b }) hold nofun
    · exact AtEach.put (p := { p with bucket := b }) hold nofun
  | begin i n _ => exact AtEach.put hold nofun
  | again i n wake _ _ => exact AtEach.seekSlot hold nofun nofun
  | answer i n r s' _ _ _ hnew =>
    have hreleased := AtEach.releaseSlot hold fun _ _ _ => nofun
    rcases hnew with ⟨rfl, -⟩ | ⟨wake, rfl⟩
    · exact AtEach.put hreleased nofun
    · exact AtEach.put hreleased nofun
  | answerLast i n r o hs _ hanswered =>
    have hcalls : n = p.callsOf i ∧ 0 < p.callsOf i := hcounted i _ hs
    have hsame : (p.releaseSlot.settle i (disposition plan i o)).callsOf i = p.callsOf i := by
      simp [callsOf, Pass.settle, Pass.put]
    refine AtEach.put (AtEach.releaseSlot hold fun _ _ _ => nofun) ?_
    rintro _ ⟨⟩
    exact isJustified_of_answered hanswered (hsame ▸ hcalls.2)

/-- In every running pass all deletions that have ended have a reason for it. -/
theorem justified_run (plan : PassPlan) (bucket : Bucket) (now : Duration) (events : List PassEvent) :
    Justified plan ((start plan bucket now).run plan events) := by
  have hstart : Justified plan (start plan bucket now) := by
    intro i s hs d hd
    simp only [start, Array.getElem?_map, Option.map_eq_some_iff] at hs
    obtain ⟨-, -, rfl⟩ := hs
    cases hd
  exact ((run_changes _ events).keeps (Q := fun p => Counted p ∧ Justified plan p)
    (fun _ _ h hc => ⟨h.1.change hc, h.2.change h.1 hc⟩) ⟨counted_start plan bucket now, hstart⟩).2

/-- Only deletions of the plan are called. -/
theorem lt_size_of_mem_calls (plan : PassPlan) (bucket : Bucket) (now : Duration) (events : List PassEvent)
    {call : Duration × Nat} (h : call ∈ ((start plan bucket now).run plan events).calls) :
    call.2 < plan.deletions.size := by
  have hbegun {p : Pass} {i n : Nat} {s : Stage} (hs : p.stages[i]? = some s)
      (hp : ∀ call ∈ p.calls, call.2 < p.stages.size) : ∀ call ∈ (p.beginCall i n).calls, call.2 < p.stages.size := by
    intro call hcall
    rcases List.mem_cons.mp hcall with rfl | hold
    · exact (Array.getElem?_eq_some_iff.mp hs).1
    · exact hp call hold
  have hmoves : Moves plan (start plan bucket now) ((start plan bucket now).run plan events) := run_moves _ events
  have hkept := hmoves.keeps (P := fun p => ∀ call ∈ p.calls, call.2 < p.stages.size) (fun p q hp hm => ?_)
    fun call hcall => nomatch hcall
  · exact size_stages_run plan bucket now events ▸ hkept call h
  · rw [hm.size_stages]
    cases hm with
    | seekSlot i n s hs _ _ =>
      obtain ⟨-, heq⟩ | ⟨-, heq⟩ := seekSlot_cases p i n
      · rw [heq]
        exact hbegun (p := { p with free := p.free - 1 }) hs hp
      · rw [heq]
        exact hp
    | beginCall i n hs => exact hbegun hs hp
    | answer i n s' _ _ _ => simpa [Pass.put] using hp
    | answerLast i n d _ => simpa [Pass.settle, Pass.put] using hp
    | _ => exact hp

/-! ## §2 Failures -/

/-- The failures among the settlements, the earliest first. -/
def failures (plan : PassPlan) (p : Pass) : List (Deletion × String) :=
  p.settlements.reverse.filterMap fun settlement =>
    settlement.2.message?.map fun message => (plan.deletions[settlement.1]?.getD default, message)

/-- No deletion ends but one, and that at most once. -/
def SettlesOnly (i : Nat) (p q : Pass) : Prop :=
  q.settlements = p.settlements ∨ ∃ d, q.settlements = (i, d) :: p.settlements

theorem settlements_seekSlot (p : Pass) (i n : Nat) : (p.seekSlot i n).settlements = p.settlements := by
  obtain ⟨-, heq⟩ | ⟨-, heq⟩ := seekSlot_cases p i n <;> rw [heq] <;> rfl

@[simp] theorem settlements_releaseSlot (p : Pass) : p.releaseSlot.settlements = p.settlements := by
  unfold releaseSlot
  split <;> rfl

theorem settlesOnly_attempt (p : Pass) (i n : Nat) : SettlesOnly i p (p.attempt plan i n) := by
  unfold attempt RetryState.start
  cases p.cancelled with
  | true => exact .inr ⟨_, rfl⟩
  | false => exact .inl (settlements_seekSlot p i (n + 1))

theorem settlesOnly_seekToken (p : Pass) (i : Nat) : SettlesOnly i p (p.seekToken plan i) := by
  unfold seekToken
  split
  · exact .inr ⟨_, rfl⟩
  · split
    · exact settlesOnly_attempt { p with bucket := _ } i 0
    · exact .inl rfl
    · exact .inl rfl

theorem settlesOnly_resume (p : Pass) (i : Nat) : SettlesOnly i p (p.resume plan i) := by
  unfold resume
  split
  · split
    · exact .inr ⟨_, rfl⟩
    · split
      · exact .inr ⟨_, rfl⟩
      · exact settlesOnly_seekToken p i
  · split
    · exact .inr ⟨_, rfl⟩
    · split
      · exact settlesOnly_seekToken p i
      · exact .inl rfl
  · exact .inl rfl
  · split
    · exact .inr ⟨_, rfl⟩
    · split
      · exact settlesOnly_attempt p i _
      · exact .inl rfl
  · exact .inl rfl

theorem settlesOnly_reply (p : Pass) (i : Nat) (r : Reply) : SettlesOnly i p (p.reply plan i r) := by
  have hreleased {q : Pass} (h : SettlesOnly i p.releaseSlot q) : SettlesOnly i p q := by
    unfold SettlesOnly at h
    rwa [settlements_releaseSlot] at h
  unfold reply
  split
  · rename_i n _
    dsimp only
    obtain ⟨o, hanswered⟩ | hanswered := answered_cases plan.limit n r
    · rw [hanswered]
      exact hreleased (.inr ⟨_, rfl⟩)
    · rw [hanswered]
      dsimp only
      split
      · exact hreleased (.inl rfl)
      · exact hreleased (settlesOnly_resume (p.releaseSlot.put i _) i)
  · exact .inl rfl

theorem settlesOnly_turn (plan : PassPlan) (p : Pass) (t : Turn) : SettlesOnly t.deletion p (p.step plan t.event) := by
  cases t with
  | resume i => exact settlesOnly_resume p i
  | deliver i r => exact settlesOnly_reply p i r

/-- Who has ended has no turn. -/
theorem not_settled_of_fits {t : Turn} (h : t.Fits p) (d : Disposition) : p.stages[t.deletion]? ≠ some (.settled d) := by
  intro hs
  cases t with
  | resume i =>
    obtain ⟨s, hs', hresume⟩ := h
    cases hs.symm.trans hs'
    cases hresume
  | deliver i r =>
    obtain ⟨n, hs'⟩ := h
    cases hs.symm.trans hs'

/-- After its turn a deletion that has failed is the latest failure. -/
theorem failures_of_failed {t : Turn} (hledger : Ledger p) (hledger' : Ledger (p.step plan t.event)) (hfits : t.Fits p)
    {message : String} (hs : (p.step plan t.event).stages[t.deletion]? = some (.settled (.failed message))) :
    (p.step plan t.event).failures plan =
      p.failures plan ++ [(plan.deletions[t.deletion]?.getD default, message)] := by
  have hmem := (hledger'.mem_iff _ _).mpr hs
  rcases settlesOnly_turn plan p t with heq | ⟨d, heq⟩
  · rw [heq] at hmem
    exact absurd ((hledger.mem_iff _ _).mp hmem) (not_settled_of_fits hfits _)
  · have hd : (p.step plan t.event).stages[t.deletion]? = some (.settled d) :=
      (hledger'.mem_iff _ _).mp (heq ▸ List.mem_cons_self)
    cases hs.symm.trans hd
    simp [failures, heq, Disposition.message?]

/-- After a turn in which nobody has failed the failures are the same. -/
theorem failures_of_not_failed {t : Turn} (hledger' : Ledger (p.step plan t.event))
    (hs : ∀ message, (p.step plan t.event).stages[t.deletion]? ≠ some (.settled (.failed message))) :
    (p.step plan t.event).failures plan = p.failures plan := by
  rcases settlesOnly_turn plan p t with heq | ⟨d, heq⟩
  · rw [failures, heq, failures]
  · have hd : (p.step plan t.event).stages[t.deletion]? = some (.settled d) :=
      (hledger'.mem_iff _ _).mp (heq ▸ List.mem_cons_self)
    cases d with
    | failed message => exact absurd hd (hs message)
    | _ => simp [failures, heq, Disposition.message?]

end Pass

/-! ## §3 Reports -/

/-- What the world of a backend has of reports: some for each failure, and none for calls. -/
structure DeleteBackend.Reports {σ ρ : Type} (backend : DeleteBackend σ) (reports : σ → List ρ)
    (note : Deletion → String → List ρ) : Prop where
  answer : ∀ world now call, reports (backend.answer world now call).2 = reports world
  failed : ∀ world d message, reports (backend.failed world d message) = reports world ++ note d message

namespace Schedule

variable {σ ρ : Type} {plan : PassPlan} {backend : DeleteBackend σ} {s : Schedule σ} {reports : σ → List ρ}
  {note : Deletion → String → List ρ}

/-- All along a schedule what has been reported is what the settlements say about failures. -/
theorem reports_of_reaches (hbackend : backend.Reports reports note) {bucket : Bucket} {clock : Millis}
    {cancelAt : Option Millis} {world : σ} (hnone : reports world = [])
    (h : Reaches plan backend (start plan bucket clock cancelAt world) s) :
    reports s.world = (s.pass.failures plan).flatMap fun failure => note failure.1 failure.2 := by
  induction h with
  | refl => exact hnone
  | @tail s v hreach hstep ih =>
    have hledger {v : Schedule σ} (hv : Reaches plan backend (start plan bucket clock cancelAt world) v) :
        v.pass.Ledger := by
      obtain ⟨events, hevents⟩ := Reaches.events hv
      rw [hevents]
      exact Pass.settlements_run plan bucket clock.moment events
    have hnext := hledger (hreach.tail hstep)
    obtain ⟨t, ready, hready, rfl⟩ | ⟨t, -, -, rfl⟩ := step?_cases hstep
    · have hfits : t.Fits s.pass := (inTurn_of_reaches hreach).fits t (by simp [pending, hready])
      rw [act_pass] at hnext ⊢
      obtain ⟨n, r, delay, hs, hanswer, -⟩ | ⟨stage, wake, hs, hwake, hworld, -⟩ | ⟨message, hs, hworld, -⟩ |
        ⟨hquiet, hworld, -⟩ := follow_cases plan backend t.deletion
          { s with
            pass := s.pass.step plan t.event, ready := ready ++ handedTo s.pass t
            peak := max s.peak (s.pass.step plan t.event).inFlight }
      · have hnobody (message : String) :
            (s.pass.step plan t.event).stages[t.deletion]? ≠ some (.settled (.failed message)) := by
          intro hs'
          cases hs.symm.trans hs'
        rw [Pass.failures_of_not_failed hnext hnobody, ← ih]
        exact (congrArg (fun result => reports result.2) hanswer).symm.trans (hbackend.answer ..)
      · have hnobody (message : String) :
            (s.pass.step plan t.event).stages[t.deletion]? ≠ some (.settled (.failed message)) := by
          intro hs'
          cases hs.symm.trans hs'
          cases hwake
        rw [Pass.failures_of_not_failed hnext hnobody, ← ih]
        exact congrArg reports hworld
      · rw [Pass.failures_of_failed (hledger hreach) hnext hfits hs, List.flatMap_append, ← ih]
        exact (congrArg reports hworld).trans ((hbackend.failed ..).trans (by simp))
      · rw [Pass.failures_of_not_failed hnext fun message hs => (hquiet _ hs).2.1 message rfl, ← ih]
        exact congrArg reports hworld
    · have hsame : (Schedule.jump plan t s).pass.settlements = s.pass.settlements := by
        obtain ⟨d, hd⟩ : ∃ d, s.timeUntil t = .advance d := ⟨_, rfl⟩
        rw [jump_pass, hd]
        split <;> rfl
      have hworld : (Schedule.jump plan t s).world = s.world := by
        unfold Schedule.jump
        dsimp only
        split <;> rfl
      rw [hworld, ih, Pass.failures, Pass.failures, hsame]

end Schedule

end Reaper
