import Reaper.Proofs.Reconciler.Stuck

/-!
The pace of passes.

Every status that is written brings the policy back, so a reconciler keeps a record of the last pass of each policy and
lets the interval pass before the next one. The records are those of the passes that were begun and have not been undone
since (`lastStart`), so whether a policy is due can be told from what was done. A visit that is not due is a visit of
four questions, of which only the reading of the clock leaves a trace (`Waits`); a visit that is due writes one status,
or is stuck (`Begins`).

  §1 Time    — when a policy is due, and how long it is to be left alone.
  §2 Records — the records tell the passes that were begun.
  §3 Visits  — visits that are due and visits that are not.
-/

namespace Reaper

/-! ## §1 Time -/

/-- Outside of leap seconds the time between two instants is a plain difference. -/
theorem Instant.since_eq {a b : Instant} (ha : a.nanos < Duration.perSecond) (hb : b.nanos < Duration.perSecond) :
    a.since b = (a.secs - b.secs) * Duration.perSecond + (a.nanos - b.nanos) := by
  have hadjust : (if b.secs % perDay < a.secs % perDay then (if Duration.perSecond ≤ b.nanos then 1 else 0)
      else if a.secs % perDay < b.secs % perDay then (if Duration.perSecond ≤ a.nanos then -1 else 0)
      else 0 : Int) = 0 := by
    rw [if_neg (Nat.not_le.mpr ha), if_neg (Nat.not_le.mpr hb), ite_self, ite_self]
  have hdays : (a.secs / perDay - b.secs / perDay) * perDay + (a.secs % perDay - b.secs % perDay) =
      a.secs - b.secs := by
    have hdivA := Int.mul_ediv_add_emod a.secs perDay
    have hdivB := Int.mul_ediv_add_emod b.secs perDay
    rw [Int.sub_mul, Int.mul_comm _ perDay, Int.mul_comm (b.secs / perDay) perDay]
    omega
  unfold since
  dsimp only
  rw [hadjust, hdays, Int.add_zero]

/-- Outside of leap seconds times add up. -/
theorem Instant.since_trans {a b c : Instant} (ha : a.nanos < Duration.perSecond) (hb : b.nanos < Duration.perSecond)
    (hc : c.nanos < Duration.perSecond) : a.since c = a.since b + b.since c := by
  rw [since_eq ha hc, since_eq ha hb, since_eq hb hc, show a.secs - c.secs = (a.secs - b.secs) + (b.secs - c.secs) by
    omega, Int.add_mul]
  omega

namespace PassRecord

variable {record : PassRecord} {interval left : Duration} {now : Instant}

/-- The interval has passed since the pass began; an empty one always has. -/
def HasPassed (record : PassRecord) (interval : Duration) (now : Instant) : Prop :=
  interval.nanos = 0 ∨ (interval.nanos : Int) ≤ now.since record.started

theorem wait?_eq_none_iff : record.wait? interval now = none ↔ record.HasPassed interval now := by
  unfold wait? Duration.sub? Instant.elapsedSince HasPassed
  split
  · rw [Option.filter_some, ite_eq_right_iff]
    simp only [ne_eq, decide_not, Bool.not_eq_true', decide_eq_false_iff_not, Decidable.not_not, reduceCtorEq, imp_false]
    omega
  · rename_i hlonger
    dsimp only at hlonger
    exact iff_of_true (Option.filter_none ..) (.inr (by omega))

/-- What is left of the interval is neither nothing nor more than all of it. -/
theorem of_wait?_eq_some (h : record.wait? interval now = some left) :
    0 < left.nanos ∧ left ≤ interval ∧ left.nanos = interval.nanos - (now.since record.started).toNat := by
  obtain ⟨hsub, hleft⟩ := Option.filter_eq_some_iff.mp h
  unfold Duration.sub? Instant.elapsedSince at hsub
  split at hsub
  · cases hsub
    have hne : interval.nanos - (now.since record.started).toNat ≠ 0 := by simpa using hleft
    exact ⟨Nat.pos_of_ne_zero hne, Nat.sub_le _ _, rfl⟩
  · cases hsub

/-- Once what was left is over, the interval has passed, unless the clock was behind the start. -/
theorem hasPassed_of_wait? (h : record.wait? interval now = some left) (hstart : 0 ≤ now.since record.started)
    (hrecord : record.started.nanos < Duration.perSecond) (hnow : now.nanos < Duration.perSecond) {later : Instant}
    (hlater : later.nanos < Duration.perSecond) (hover : (left.nanos : Int) ≤ later.since now) :
    record.HasPassed interval later := by
  obtain ⟨hpos, -, hleft⟩ := of_wait?_eq_some h
  refine .inr ?_
  rw [Instant.since_trans hlater hnow hrecord]
  omega

end PassRecord

/-- A policy is due: no pass of its specification is on record, or the interval has passed since that began. -/
def Policy.IsDue (c : Settings) (p : Policy) (last : Option PassRecord) (now : Instant) : Prop :=
  ∀ record, last = some record → record.spec = p.spec → record.HasPassed c.gcInterval now

theorem Engine.left?_eq_none_iff {σ : Type} {out : Surroundings σ} {c : Settings} {p : Policy} {ref : PolicyRef}
    {e : Engine σ} :
    e.left? out c p ref = none ↔ p.IsDue c (e.passes.get? ref.uid) (out.now e.world).1 := by
  unfold left? Policy.IsDue
  cases e.passes.get? ref.uid with
  | none => simp
  | some record => simp [PassRecord.wait?_eq_none_iff]

/-! ## §2 Records -/

namespace Deed

variable {σ : Type} (out : Surroundings σ) (c : Settings) (uid : String)

/-- The record of the pass of a policy that a deed has begun. -/
def start? (d : Deed σ) : Option PassRecord := (Question.records (d.questions out c)).lookup uid

/-- The record of the pass that was begun last, unless the policy has been let go of since. -/
def lastStart : List (Deed σ) → Option PassRecord
  | [] => none
  | d :: earlier => if d.undoes out uid then none else (d.start? out c uid).or (lastStart earlier)

variable {out c} {d : Deed σ}

theorem start?_of_records {qs : List Question} (hqs : d.questions out c = qs) (h : Question.records qs = []) :
    d.start? out c uid = none := by
  rw [start?, hqs, h]
  rfl

/-- A deed that begins no pass lets go of the record of a policy or leaves it. -/
theorem passes_of_records {qs : List Question} (hqs : d.questions out c = qs) (h : Question.records qs = [])
    (hpasses : d.after.passes.get? uid = if d.undoes out uid then none else d.before.passes.get? uid) :
    d.after.passes.get? uid =
      if d.undoes out uid then none else (d.start? out c uid).or (d.before.passes.get? uid) := by
  rw [start?_of_records uid hqs h, Option.none_or, hpasses]

/-- A visit replaces the record of its policy by that of its pass when it is due, and lets go of it when this replica does
not lead. -/
theorem IsGenuine.passes_apply {p : Policy} (h : d.IsGenuine out c) (hact : d.act = .apply p) :
    d.after.passes.get? uid =
      if d.undoes out uid then none else (d.start? out c uid).or (d.before.passes.get? uid) := by
  obtain ⟨result, -, hcourse⟩ := h.exists_course hact
  have hqs : d.questions out c = ((Reconciling.apply c p).asked (Engine.answer out c) d.before).map (·.1) := by
    rw [questions, hact]
  have hundoes {ref : PolicyRef} (href : PolicyRef.ofPolicy p = .ok ref) :
      d.undoes out uid = (decide (ref.uid = uid) && !out.isLeader d.before.world) := by
    rw [← Chronicle.Deed.undoes_apply href uid d.before d.after d.visit, ← hact]
  generalize (Reconciling.apply c p).asked (Engine.answer out c) d.before = t at hqs hcourse
  generalize hresult : some (result, d.after) = r at hcourse
  cases hcourse with
  | nameless href =>
    obtain ⟨-, hafter⟩ := Prod.mk.inj (Option.some.inj hresult)
    have hkept : d.undoes out uid = false := by simp [undoes, hact, Act.policy?, href, Except.toOption]
    exact passes_of_records uid hqs rfl (by rw [hafter, hkept]; rfl)
  | aside href hleads ht _ =>
    obtain ⟨-, hafter⟩ := Prod.mk.inj (Option.some.inj hresult)
    refine passes_of_records uid (hqs.trans ht) rfl ?_
    rw [hafter, hundoes href, hleads, Chronicle.passes_teardown, Dictionary.get?_erase]
    simp [eq_comm]
  | early href hleads _ ht =>
    obtain ⟨-, hafter⟩ := Prod.mk.inj (Option.some.inj hresult)
    refine passes_of_records uid (hqs.trans ht) rfl ?_
    rw [hafter, hundoes href, hleads, Bool.not_true, Bool.and_false]
    rfl
  | @due ref world t r href hleads _ _ _ hdue =>
    cases hdue with
    | broken _ _ _ => cases hresult
    | written _ hrecords _ _ hpasses =>
      obtain ⟨-, hafter⟩ := Prod.mk.inj (Option.some.inj hresult)
      rw [hafter, hpasses, hundoes href, hleads, start?, hqs, hrecords, Bool.not_true, Bool.and_false,
        Dictionary.get?_insert]
      by_cases huid : ref.uid = uid
      · simp [huid]
      · have hother : (uid == ref.uid) = false := by simp [Ne.symm huid]
        simp [huid, List.lookup_cons, hother]

/-- Whatever is not a visit lets go of the record of a policy or leaves it. -/
theorem IsGenuine.passes_rest (h : d.IsGenuine out c) (hact : ∀ p, d.act ≠ .apply p) :
    d.after.passes.get? uid = if d.undoes out uid then none else d.before.passes.get? uid := by
  unfold IsGenuine at h
  unfold undoes
  cases hrest : d.act with
  | apply p => exact absurd hrest (hact p)
  | teardown k =>
    rw [hrest] at h
    rw [← (Prod.mk.inj (Option.some.inj h)).2, Chronicle.passes_teardown, Dictionary.get?_erase]
    simp [eq_comm]
  | prune live =>
    rw [hrest] at h
    rw [← (Prod.mk.inj (Option.some.inj h)).2, Chronicle.passes_prune, Dictionary.get?_filter]
    simp
  | meanwhile world =>
    rw [hrest] at h
    simp [← (Prod.mk.inj (Option.some.inj h)).2]
  | cancelRoot =>
    rw [hrest] at h
    simp [← (Prod.mk.inj (Option.some.inj h)).2]

/-- A deed lets go of the record of a policy, replaces it by that of the pass that it begins, or leaves it. -/
theorem IsGenuine.passes_after (h : d.IsGenuine out c) :
    d.after.passes.get? uid =
      if d.undoes out uid then none else (d.start? out c uid).or (d.before.passes.get? uid) := by
  by_cases hvisit : ∃ p, d.act = .apply p
  · exact h.passes_apply uid hvisit.choose_spec
  · have hrest (p : Policy) : d.act ≠ .apply p := fun hact => hvisit ⟨p, hact⟩
    have hqs : d.questions out c = [] := by
      unfold questions
      split
      · rename_i p hact
        exact absurd hact (hrest p)
      · rfl
    exact passes_of_records uid hqs rfl (h.passes_rest uid hrest)

end Deed

namespace Chronicle

variable {σ : Type} {out : Surroundings σ} {c : Settings} {registry : Registry} {world : σ}

/-- After every run the record of a policy is that of the pass that was begun last. -/
theorem passes_eq_lastStart {acts : List (Act σ)} {s : Chronicle σ}
    (hrun : run out c ⟨{ registry, world }, []⟩ acts = some s) (uid : String) :
    s.engine.passes.get? uid = Deed.lastStart out c uid s.deeds := by
  refine run_induction (P := fun s => s.engine.passes.get? uid = Deed.lastStart out c uid s.deeds)
    (fun s d h hbefore hd => ?_) hrun rfl
  rw [hd.passes_after uid, hbefore, h, Deed.lastStart]

end Chronicle

/-! ## §3 Visits -/

namespace Engine

variable {σ : Type} (out : Surroundings σ) (c : Settings) (p : Policy) (ref : PolicyRef)

/-- What a visit asks, whether it ends or not. -/
def questions (e : Engine σ) : List Question := ((Reconciling.apply c p).asked (answer out c) e).map (·.1)

/-- A visit that is not due: it asks who leads, for the state, the record and the time, returns the state and how long
the policy is to be left alone, and leaves everything as it was. -/
structure Waits (last : Option PassRecord) (e : Engine σ) (left : Duration) : Prop where
  returns : e.apply out c p =
    some (.ok ⟨e.registry.state ref.uid, none, left⟩, { e with world := (out.now e.world).2 })
  asks : e.questions out c p = [.isLeader, .state ref.uid, .lastPass ref.uid, .now]
  pos : 0 < left.nanos
  le_interval : left ≤ c.gcInterval
  /-- the policy is due as soon as that time is over, if the clock was not behind the start -/
  suffices_left : ∀ record, last = some record → 0 ≤ (out.now e.world).1.since record.started →
    record.started.nanos < Duration.perSecond → (out.now e.world).1.nanos < Duration.perSecond →
    ∀ later : Instant, later.nanos < Duration.perSecond → left.nanos ≤ later.since (out.now e.world).1 →
      p.IsDue c last later

/-- A visit that is due: it puts a pass on record that begins at the time that the clock shows, and writes one status if
it is not stuck. -/
structure Begins (e : Engine σ) : Prop where
  records : ∃ world, (world = e.world ∨ world = (out.now e.world).2) ∧
    Question.records (e.questions out c p) = [(ref.uid, recordNow out p world)]
  writes : ¬ Stuck out c p ((Reconciling.apply c p).asked (answer out c) e) →
    ∃ v e' status, e.apply out c p = some (.ok v, e') ∧ Question.writes (e.questions out c p) = [(ref, status)]
  stuck : Stuck out c p ((Reconciling.apply c p).asked (answer out c) e) →
    e.apply out c p = none ∧ Question.writes (e.questions out c p) = []

variable {out c p ref} {e : Engine σ}

/-- A visit of a policy that is not due. -/
theorem exists_waits (href : PolicyRef.ofPolicy p = .ok ref) (hleads : out.isLeader e.world = true)
    (hdue : ¬ p.IsDue c (e.passes.get? ref.uid) (out.now e.world).1) :
    ∃ left, Waits out c p ref (e.passes.get? ref.uid) e left := by
  have hcourse : Course out c p e ((Reconciling.apply c p).asked (answer out c) e) (e.apply out c p) := comesTo_apply p e
  rw [← left?_eq_none_iff (p := p) (e := e)] at hdue
  generalize htrace : (Reconciling.apply c p).asked (answer out c) e = t at hcourse
  generalize hresult : e.apply out c p = r at hcourse
  cases hcourse with
  | nameless href' => cases href.symm.trans href'
  | aside href' hfollows => cases hleads.symm.trans hfollows
  | due href' _ hleft =>
    cases href.symm.trans href'
    exact absurd hleft hdue
  | @early ref' t left href' _ hleft ht =>
    cases href.symm.trans href'
    obtain ⟨record, hrecord, hwait⟩ := Option.bind_eq_some_iff.mp hleft
    obtain ⟨hspec, hwait⟩ : record.spec = p.spec ∧ record.wait? c.gcInterval (out.now e.world).1 = some left := by
      simpa using hwait
    obtain ⟨hpos, hle, -⟩ := PassRecord.of_wait?_eq_some hwait
    refine ⟨left, hresult, by rw [questions, htrace, ht], hpos, hle, ?_⟩
    intro record' hrecord' hstart hstarted hnow later hlater hover last hlast hspec'
    cases hrecord.symm.trans hrecord'
    cases hrecord.symm.trans hlast
    exact PassRecord.hasPassed_of_wait? hwait hstart hstarted hnow hlater hover

/-- A visit of a policy that is due. -/
theorem begins_of_isDue (hstocked : e.registry.Stocked) (href : PolicyRef.ofPolicy p = .ok ref)
    (hleads : out.isLeader e.world = true) (hdue : p.IsDue c (e.passes.get? ref.uid) (out.now e.world).1) :
    Begins out c p ref e := by
  have hcourse : Course out c p e ((Reconciling.apply c p).asked (answer out c) e) (e.apply out c p) := comesTo_apply p e
  rw [← left?_eq_none_iff (p := p) (e := e)] at hdue
  generalize htrace : (Reconciling.apply c p).asked (answer out c) e = t at hcourse
  generalize hresult : e.apply out c p = r at hcourse
  cases hcourse with
  | nameless href' => cases href.symm.trans href'
  | aside href' hfollows => cases hleads.symm.trans hfollows
  | early href' _ hleft =>
    cases href.symm.trans href'
    cases hdue.symm.trans hleft
  | due href' _ _ hworld htarget hvisit =>
    cases href.symm.trans href'
    cases hvisit with
    | broken hwrites hrecords hbreaks =>
      refine ⟨⟨_, hworld, by rw [questions, htrace, hrecords]⟩, fun hends => ?_, fun _ => ?_⟩
      · exact absurd ((htrace ▸ hbreaks).stuck hstocked) hends
      · exact ⟨hresult, by rw [questions, htrace, hwrites]⟩
    | written hwrites hrecords hdeleted htotal _ =>
      refine ⟨⟨_, hworld, by rw [questions, htrace, hrecords]⟩, fun _ => ?_, fun hstuck => ?_⟩
      · exact ⟨_, _, _, hresult, by rw [questions, htrace, hwrites]⟩
      · refine absurd hstuck (not_stuck_of_apply hresult (fun hnone => by cases htarget hnone) ?_)
        rw [htrace, ← hdeleted, htotal]
        exact Option.some_ne_none _

end Engine

namespace Chronicle

variable {σ : Type} {out : Surroundings σ} {c : Settings} {world : σ}

/-- However a reconciler is used: a policy is begun upon only if the interval has passed since its last pass began, or
that was of another specification or has been undone. Else it is left alone, for no longer than it takes until it is due.
When it is due, a pass is put on record and one status is written, unless the visit is stuck: how long a pass takes does
not matter, nor how many deletions it has. -/
theorem passes_are_paced {acts : List (Act σ)} {s : Chronicle σ} (hrun : run out c ⟨{ world }, []⟩ acts = some s)
    {p : Policy} {ref : PolicyRef} (href : PolicyRef.ofPolicy p = .ok ref)
    (hleads : out.isLeader s.engine.world = true) :
    (¬ p.IsDue c (Deed.lastStart out c ref.uid s.deeds) (out.now s.engine.world).1 →
      ∃ left, Engine.Waits out c p ref (Deed.lastStart out c ref.uid s.deeds) s.engine left) ∧
    (p.IsDue c (Deed.lastStart out c ref.uid s.deeds) (out.now s.engine.world).1 →
      Engine.Begins out c p ref s.engine) := by
  rw [← passes_eq_lastStart hrun ref.uid]
  exact ⟨Engine.exists_waits href hleads, Engine.begins_of_isDue (stocked_run hrun) href hleads⟩

/-- The hourly policy under its name. -/
def hourlyRef : PolicyRef := ⟨"prod", "hourly", "p-1"⟩

/-- A policy that comes back right after its pass is left alone. -/
theorem hourly_waits :
    ∃ s left, run steady {} ⟨{ world := Engine.onePod.world }, []⟩ [.apply Engine.hourly] = some s ∧
      Engine.Waits steady {} Engine.hourly hourlyRef (Deed.lastStart steady {} "p-1" s.deeds) s.engine left := by
  have hagain : (Engine.apply steady {} Engine.hourly { world := Engine.onePod.world }).map
      (fun r => (r.2.world.isLeader, r.2.left? steady {} Engine.hourly hourlyRef)) = some (true, some (.ofSecs 60)) := by
    unfold Engine.apply Reconciling.apply Reconciling.visit
    rw [Engine.target_hourly]
    decide +kernel
  obtain ⟨⟨result, e'⟩, happly, heq⟩ := Option.map_eq_some_iff.mp hagain
  obtain ⟨hleads, hleft⟩ := Prod.mk.inj heq
  have hact : Engine.act steady {} { world := Engine.onePod.world } (.apply Engine.hourly) =
      some (result.toOption, e') := by rw [Engine.act, happly]; rfl
  have hrun : run steady {} ⟨{ world := Engine.onePod.world }, []⟩ [.apply Engine.hourly] =
      some ⟨e', [⟨.apply Engine.hourly, { world := Engine.onePod.world }, e', result.toOption⟩]⟩ := by
    rw [run_cons hact]
    rfl
  have href : PolicyRef.ofPolicy Engine.hourly = .ok hourlyRef := rfl
  have hdue : ¬ Engine.hourly.IsDue {} (e'.passes.get? hourlyRef.uid) (steady.now e'.world).1 := by
    rw [← Engine.left?_eq_none_iff, hleft]
    exact Option.some_ne_none _
  rw [passes_eq_lastStart hrun] at hdue
  obtain ⟨left, hwaits⟩ := (passes_are_paced hrun href hleads).1 hdue
  exact ⟨_, left, hrun, hwaits⟩

/-- Pauses that grow from a second to more seconds than a duration has, where the longest pause leaves room for it. -/
def endlessPauses : Settings :=
  { retry :=
      { initialMillis := 1000, factor := .finite (2 ^ 64), jitter := .finite 0, maxDelaySeconds := UInt64.size - 1 } }

/-- The pod cannot be deleted yet, because there are too many calls. -/
def busyPod : Engine Rehearsal where
  world :=
    { Engine.onePod.world with
      deletions := { replies := [("web-0", [.error (.api "Failure" "busy" "TooManyRequests" 429)])] } }

/-- A visit that is due and writes no status: the second pause of its deletion has no duration. The settings are of use
to whoever checks them. -/
theorem writes_nothing_endlessPauses :
    Settings.check endlessPauses = .ok () ∧ Engine.hourly.IsDue endlessPauses none (steady.now busyPod.world).1 ∧
      steady.isLeader busyPod.world = true ∧ busyPod.apply steady endlessPauses Engine.hourly = none ∧
      Question.writes (busyPod.questions steady endlessPauses Engine.hourly) = [] := by
  refine ⟨?_, fun _ hnone => (Option.some_ne_none _ hnone.symm).elim, rfl, Option.isNone_iff_eq_none.mp ?_,
    List.isEmpty_iff.mp ?_⟩
  · decide +kernel
  · unfold Engine.apply Reconciling.apply Reconciling.visit
    rw [Engine.target_hourly]
    decide +kernel
  · unfold Engine.questions Reconciling.apply Reconciling.visit
    rw [Engine.target_hourly]
    decide +kernel

end Chronicle

end Reaper
