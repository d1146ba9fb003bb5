import Mathlib.Data.List.Dedup
import Reaper.Proofs.Evaluation.Isolation
import Reaper.Proofs.Pass.Endings
import Reaper.Proofs.Pass.FirstCalls

/-!
The counters of an evaluation.

Whatever the order in which the deletions of a pass come to their ends, each expired resource is counted once, as what
became of it (`Balances`). Failures are also reported, once each, if the policy has an identity under which that can be
done (`Concludes.notices`). A dry run counts the resources for which calls would be made (`Concludes.dryRun_eq`).

  §1 Sums     — what surveys and tallies add up to.
  §2 Balances — the counters of a pass that has come to its end.
  §3 Notices  — what is reported of failures.
  §4 Dry runs — what they foretell.
-/

namespace Reaper

/-! ## §1 Sums -/

/-- What is covered is expired, pending or exempt. -/
theorem Verdict.countP_covered (verdicts : List Verdict) :
    verdicts.countP (· ≠ .notCovered) =
      verdicts.count .expired + verdicts.count .pending + verdicts.count .exempt := by
  induction verdicts with
  | nil => rfl
  | cons verdict rest ih =>
    simp only [List.countP_cons, List.count_cons, ih]
    cases verdict <;> simp <;> omega

/-- A survey sorts what is covered. -/
theorem Survey.matched_eq (s : PolicySpec) (scope : Option String) (now : Instant) (snapshot : List Resource) :
    (Survey.of s scope now snapshot).matched =
      (Survey.of s scope now snapshot).expired.length + (Survey.of s scope now snapshot).pending +
        (Survey.of s scope now snapshot).exempt := by
  have hexpired : (snapshot.map (s.verdict scope now)).count .expired =
      (snapshot.filter fun r => s.verdict scope now r = .expired).length := by
    rw [List.count, List.countP_map, ← List.countP_eq_length_filter]
    exact List.countP_congr fun r _ => by simp
  unfold Survey.of
  rw [← hexpired]
  exact Verdict.countP_covered _

theorem Disposition.isFailed_eq (d : Disposition) : d.isFailed = d.message?.isSome := by
  cases d <;> rfl

/-- A deletion ends in one of four ways. -/
theorem Disposition.length_eq (dispositions : List Disposition) :
    dispositions.length =
      dispositions.countP (· = .deleted) + dispositions.countP Disposition.isFailed +
        dispositions.countP (· = .dryRun) + dispositions.countP (· = .cancelled) := by
  induction dispositions with
  | nil => rfl
  | cons d rest ih =>
    cases d <;> simp [List.countP_cons, Disposition.isFailed, ih] <;> omega

namespace Trial

variable {σ : Type} {t : Trial σ} {s : Schedule σ} {v : Evaluation σ} {p : Pass}

/-! ## §2 Balances -/

/-- The resources that have been dealt with in a pass, each with how that ended, in the order in which it did. -/
def outcomes (t : Trial σ) (p : Pass) : List (Resource × Disposition) :=
  p.settlements.reverse.map fun settlement => (t.expired[settlement.1]?.getD default, settlement.2)

/-- The counters that a pass leaves. -/
def resultOf (t : Trial σ) (p : Pass) : PassResult :=
  .tally (Survey.of t.policy.spec t.target.namespace t.now t.snapshot) (p.settlements.reverse.map (·.2))

/-- What a survey alone counts. -/
def scanned (t : Trial σ) : PassResult := Evaluator.scan t.policy t.target t.now t.snapshot

/-- How many resources were not dealt with because of the cancellation. -/
def cutShort (outcomes : List (Resource × Disposition)) : Nat := outcomes.countP (·.2 = .cancelled)

/-- The counters account for each resource once: for those of the survey, and for what became of those that expired. -/
structure Balances (t : Trial σ) (outcomes : List (Resource × Disposition)) (r : PassResult) : Prop where
  once : (outcomes.map (·.1)).Perm t.expired
  surveyed : r.matched = t.scanned.matched ∧ r.expired = t.scanned.expired ∧ r.pending = t.scanned.pending ∧
    r.skipped = t.scanned.skipped
  matched : r.matched = r.expired + r.pending + r.skipped
  expired : r.expired = r.deleted + r.failed + r.dryRun + cutShort outcomes
  deleted : r.deleted = outcomes.countP (·.2 = .deleted)
  failed : r.failed = outcomes.countP (·.2.isFailed)
  dryRun : r.dryRun = outcomes.countP (·.2 = .dryRun)
  cancelled : r.cancelled = true ↔ 0 < cutShort outcomes
  firstError : 0 < r.failed ↔ r.firstError.isSome = true

theorem map_snd_outcomes (t : Trial σ) (p : Pass) :
    (t.outcomes p).map (·.2) = p.settlements.reverse.map (·.2) := by
  simp [outcomes]

theorem map_getD_range (resources : List Resource) :
    ((List.range resources.length).map fun i => resources[i]?.getD default) = resources := by
  refine List.ext_getElem (by simp) fun i hi hi' => ?_
  simp [hi']

/-- In a pass that has come to its end each expired resource has ended once. -/
theorem perm_outcomes (hledger : p.Ledger) (hsize : p.stages.size = t.expired.length) (hsettled : p.isSettled = true) :
    ((t.outcomes p).map (·.1)).Perm t.expired := by
  have hperm := hledger.perm_range hsettled
  rw [hsize] at hperm
  have hnumbers : (t.outcomes p).map (·.1) =
      (p.settlements.map (·.1)).reverse.map fun i => t.expired[i]?.getD default := by
    simp [outcomes, ← List.map_reverse]
  rw [hnumbers]
  exact (((List.reverse_perm _).trans hperm).map _).trans (.of_eq (map_getD_range t.expired))

/-- The counters of a pass that has come to its end account for everything. -/
theorem balances_of_ledger (hledger : p.Ledger) (hsize : p.stages.size = t.expired.length)
    (hsettled : p.isSettled = true) : t.Balances (t.outcomes p) (t.resultOf p) := by
  have honce := perm_outcomes (t := t) hledger hsize hsettled
  have hcount (f : Disposition → Bool) :
      (p.settlements.reverse.map (·.2)).countP f = (t.outcomes p).countP fun outcome => f outcome.2 := by
    rw [← map_snd_outcomes, List.countP_map]
    rfl
  have hlength : (p.settlements.reverse.map (·.2)).length = t.expired.length := by
    rw [← map_snd_outcomes, List.length_map, ← List.length_map (f := Prod.fst)]
    exact honce.length_eq
  have hcut : cutShort (t.outcomes p) = (p.settlements.reverse.map (·.2)).countP (· = .cancelled) :=
    (hcount fun d => d = .cancelled).symm
  have hways := Disposition.length_eq (p.settlements.reverse.map (·.2))
  have hcovered := Survey.matched_eq t.policy.spec t.target.namespace t.now t.snapshot
  unfold resultOf
  rw [PassResult.tally_eq]
  refine ⟨honce, ⟨rfl, rfl, rfl, rfl⟩, hcovered, ?_, hcount _, hcount _, hcount _, ?_, ?_⟩
  · rw [hcut]
    exact hlength.symm.trans hways
  · rw [hcut, List.countP_pos_iff, List.any_eq_true]
  · rw [List.countP_pos_iff, List.findSome?_isSome_iff]
    simp only [Disposition.isFailed_eq]

/-- However a pass comes to its end, its counters account for everything. -/
theorem balances_run (t : Trial σ) (events : List PassEvent)
    (hsettled : ((Pass.start t.plan t.bucket t.clock.moment).run t.plan events).isSettled = true) :
    t.Balances (t.outcomes ((Pass.start t.plan t.bucket t.clock.moment).run t.plan events))
      (t.resultOf ((Pass.start t.plan t.bucket t.clock.moment).run t.plan events)) :=
  balances_of_ledger (Pass.settlements_run t.plan t.bucket t.clock.moment events)
    ((Pass.size_stages_run t.plan t.bucket t.clock.moment events).trans t.size_plan) hsettled

/-- All that has ended in a pass has a reason for it. -/
theorem exists_justified (t : Trial σ) (events : List PassEvent) {r : Resource} {d : Disposition}
    (hmem : (r, d) ∈ t.outcomes ((Pass.start t.plan t.bucket t.clock.moment).run t.plan events)) :
    ∃ i, Pass.IsJustified t.plan ((Pass.start t.plan t.bucket t.clock.moment).run t.plan events) i d := by
  obtain ⟨⟨i, d'⟩, hsettlement, heq⟩ := List.mem_map.mp hmem
  obtain ⟨-, rfl⟩ := Prod.mk.inj heq
  have hledger := Pass.settlements_run t.plan t.bucket t.clock.moment events
  have hs := (hledger.mem_iff i d').mp (List.mem_reverse.mp hsettlement)
  exact ⟨i, Pass.justified_run t.plan t.bucket t.clock.moment events i _ hs d' rfl⟩

/-- Only the token cuts deletions short, and only dry runs leave them out. -/
theorem of_mem_outcomes_run (t : Trial σ) (events : List PassEvent) {r : Resource} {d : Disposition}
    (hmem : (r, d) ∈ t.outcomes ((Pass.start t.plan t.bucket t.clock.moment).run t.plan events)) :
    (d = .cancelled → ((Pass.start t.plan t.bucket t.clock.moment).run t.plan events).cancelled = true) ∧
      (d = .dryRun → t.plan.dryRun = true) := by
  obtain ⟨i, ⟨rfl, hcancelled⟩ | ⟨rfl, hdry⟩ | ⟨hcut, hdry, -⟩⟩ := t.exists_justified events hmem
  · exact ⟨fun _ => hcancelled, nofun⟩
  · exact ⟨nofun, fun _ => hdry⟩
  · exact ⟨fun h => absurd h hcut, fun h => absurd h hdry⟩

/-- The trial has come to its end, and was not cancelled before it began. -/
structure Concludes (t : Trial σ) (s : Schedule σ) (v : Evaluation σ) : Prop where
  begun : Retry.cancelledBy t.cancelAt t.clock = false
  run : Schedule.run t.plan t.backend t.bucket t.clock t.cancelAt t.world = some s
  evaluation : t.evaluation? = some v

theorem exists_concludes (hbegun : Retry.cancelledBy t.cancelAt t.clock = false) (h : t.evaluation? = some v) :
    ∃ s, t.Concludes s v := by
  obtain ⟨hcancelled, -⟩ | ⟨-, s, hrun, -⟩ := Evaluator.evaluate_cases h
  · cases hbegun.symm.trans hcancelled
  · exact ⟨s, hbegun, hrun, h⟩

theorem Concludes.reaches (h : t.Concludes s v) : Schedule.Reaches t.plan t.backend t.start s :=
  Schedule.reaches_of_runFor h.run

theorem Concludes.events (h : t.Concludes s v) :
    ∃ events, s.pass = (Pass.start t.plan t.bucket t.clock.moment).run t.plan events :=
  Schedule.Reaches.events h.reaches

theorem Concludes.balances (h : t.Concludes s v) : t.Balances (t.outcomes s.pass) v.result := by
  obtain ⟨hresult, -⟩ := result_of_run h.begun h.run h.evaluation
  obtain ⟨events, hevents⟩ := h.events
  have hsettled := Schedule.isSettled_of_runFor h.run
  rw [hresult]
  rw [hevents] at hsettled ⊢
  exact t.balances_run events hsettled

end Trial

/-! ## §3 Notices -/

/-- What is reported of a deletion that has failed, if the policy has an identity. -/
def Policy.failureNotices (p : Policy) (label message : String) : List (PolicyRef × Notice) :=
  match PolicyRef.ofPolicy p with
  | .ok ref => [(ref, .deletionFailed label message)]
  | .error _ => []

namespace DeleteBackend

variable {σ : Type} (delete : σ → Millis → DeleteCall → (Reply × Option Duration) × σ)
  (notify : PolicyRef → Notice → σ → σ) (p : Policy)

/-- A backend that reports failures as notices, and notes down what it reports. -/
def logging : DeleteBackend (σ × List (PolicyRef × Notice)) :=
  .reporting (fun w now call => ((delete w.1 now call).1, (delete w.1 now call).2, w.2))
    (fun ref notice w => (notify ref notice w.1, w.2 ++ [(ref, notice)])) p

theorem notes_logging : (reporting delete notify p).Notes (logging delete notify p) where
  answer _ _ _ := rfl
  failed w d message := by
    unfold logging reporting
    dsimp only
    split <;> rfl

theorem reports_logging :
    (logging delete notify p).Reports (·.2) fun d message => p.failureNotices d.label message where
  answer _ _ _ := rfl
  failed w d message := by
    unfold logging reporting Policy.failureNotices
    dsimp only
    cases PolicyRef.ofPolicy p with
    | ok ref => rfl
    | error reason => exact (List.append_nil _).symm

end DeleteBackend

namespace Trial

variable {σ τ : Type} {t : Trial σ} {s : Schedule σ} {v : Evaluation σ} {p : Pass}

/-- The same trial with another backend. -/
def inWorld (t : Trial σ) (backend : DeleteBackend τ) (world : τ) : Trial τ :=
  { evaluator := t.evaluator, backend, policy := t.policy, target := t.target, now := t.now, snapshot := t.snapshot
    bucket := t.bucket, clock := t.clock, cancelAt := t.cancelAt, world }

/-- What is to be reported of the resources that could not be deleted. -/
def noticesOf (p : Policy) (outcomes : List (Resource × Disposition)) : List (PolicyRef × Notice) :=
  outcomes.flatMap fun outcome => outcome.2.message?.toList.flatMap (p.failureNotices outcome.1.label)

/-- If the policy has an identity, there is one notice for each failure, which names the resource. -/
theorem noticesOf_of_ok {q : Policy} {ref : PolicyRef} (hq : PolicyRef.ofPolicy q = .ok ref)
    (outcomes : List (Resource × Disposition)) :
    noticesOf q outcomes = outcomes.filterMap fun outcome =>
      outcome.2.message?.map fun message => (ref, .deletionFailed outcome.1.label message) := by
  unfold noticesOf Policy.failureNotices
  rw [hq, List.filterMap_eq_flatMap_toList]
  refine List.flatMap_congr fun outcome _ => ?_
  cases outcome.2.message? <;> rfl

/-- If it has none, nothing is reported. -/
theorem noticesOf_of_error {q : Policy} {reason : String} (hq : PolicyRef.ofPolicy q = .error reason)
    (outcomes : List (Resource × Disposition)) : noticesOf q outcomes = [] := by
  unfold noticesOf Policy.failureNotices
  rw [hq]
  simp

theorem length_noticesOf {q : Policy} {ref : PolicyRef} (hq : PolicyRef.ofPolicy q = .ok ref)
    (outcomes : List (Resource × Disposition)) : (noticesOf q outcomes).length = outcomes.countP (·.2.isFailed) := by
  rw [noticesOf_of_ok hq, List.length_filterMap_eq_countP]
  refine List.countP_congr fun outcome _ => ?_
  rw [Option.isSome_map, Disposition.isFailed_eq]

theorem label_getD_plan {i : Nat} (hi : i < t.expired.length) :
    (t.plan.deletions[i]?.getD default).label = (t.expired[i]?.getD default).label := by
  rw [getElem?_plan, List.getElem?_eq_getElem hi]
  rfl

/-- The notices of the failures among the settlements. -/
theorem flatMap_failures (hledger : p.Ledger) (hsize : p.stages.size = t.expired.length) :
    (p.failures t.plan).flatMap (fun failure => t.policy.failureNotices failure.1.label failure.2) =
      noticesOf t.policy (t.outcomes p) := by
  unfold Pass.failures noticesOf outcomes
  rw [List.filterMap_eq_flatMap_toList, List.flatMap_assoc, List.flatMap_map]
  refine List.flatMap_congr fun settlement hmem => ?_
  have hs := (hledger.mem_iff _ _).mp (List.mem_reverse.mp hmem)
  have hi : settlement.1 < t.expired.length := hsize ▸ (Array.getElem?_eq_some_iff.mp hs).1
  rw [← label_getD_plan hi]
  cases settlement.2.message? <;> simp

/-- What has been reported at the end of an evaluation. -/
theorem Concludes.notices {delete : σ → Millis → DeleteCall → (Reply × Option Duration) × σ}
    {notify : PolicyRef → Notice → σ → σ} {s : Schedule (σ × List (PolicyRef × Notice))}
    {v : Evaluation (σ × List (PolicyRef × Notice))}
    (h : (t.inWorld (.logging delete notify t.policy) (t.world, [])).Concludes s v) :
    v.world.2 = noticesOf t.policy (t.outcomes s.pass) := by
  obtain ⟨-, hworld⟩ := result_of_run h.begun h.run h.evaluation
  obtain ⟨events, hevents⟩ := h.events
  have hreports := Schedule.reports_of_reaches (DeleteBackend.reports_logging delete notify t.policy) rfl h.reaches
  have hledger : s.pass.Ledger := hevents ▸ Pass.settlements_run t.plan t.bucket t.clock.moment events
  have hsize : s.pass.stages.size = t.expired.length := by
    rw [hevents]
    exact (Pass.size_stages_run t.plan t.bucket t.clock.moment events).trans t.size_plan
  rw [hworld, ← flatMap_failures hledger hsize]
  exact hreports

/-! ## §4 Dry runs -/

/-- The resources for which calls have been made, each once. -/
def called (t : Trial σ) (p : Pass) : List Resource :=
  (p.calls.map (·.2)).dedup.map fun i => t.expired[i]?.getD default

/-- The trial goes over the same snapshot at the same time, under a policy that is the same but for the manner in which
it deletes. -/
structure Rehearses (t : Trial σ) (t' : Trial τ) : Prop where
  spec : t.policy.spec = { t'.policy.spec with behavior := t.policy.spec.behavior }
  scope : t.target.namespace = t'.target.namespace
  now : t.now = t'.now
  snapshot : t.snapshot = t'.snapshot

theorem Rehearses.expired {t' : Trial τ} (h : t.Rehearses t') : t.expired = t'.expired := by
  unfold Trial.expired
  rw [h.spec, h.scope, h.now, h.snapshot]
  rfl

theorem Concludes.not_cancelled (h : t.Concludes s v) (hcancelled : v.result.cancelled = false) {r : Resource}
    {d : Disposition} (hmem : (r, d) ∈ t.outcomes s.pass) : d ≠ .cancelled := by
  rintro rfl
  have hcut : 0 < cutShort (t.outcomes s.pass) := List.countP_pos_iff.mpr ⟨_, hmem, by simp⟩
  cases hcancelled.symm.trans (h.balances.cancelled.mpr hcut)

/-- A dry run that is not cancelled counts all expired resources. -/
theorem Concludes.dryRun_eq_length (h : t.Concludes s v) (hcancelled : v.result.cancelled = false)
    (hdry : t.plan.dryRun = true) : v.result.dryRun = t.expired.length := by
  have hbalances := h.balances
  have hlength : (t.outcomes s.pass).length = t.expired.length := by
    rw [← List.length_map (f := Prod.fst)]
    exact hbalances.once.length_eq
  rw [hbalances.dryRun, ← hlength, List.countP_eq_length]
  rintro ⟨r, d⟩ hmem
  obtain ⟨events, hevents⟩ := h.events
  have hnever := h.not_cancelled hcancelled hmem
  rw [hevents] at hmem
  obtain ⟨i, ⟨hcut, -⟩ | ⟨rfl, -⟩ | ⟨-, -, hcalls⟩⟩ := t.exists_justified events hmem
  · exact absurd hcut hnever
  · rfl
  · simp [Pass.callsOf, Pass.calls_of_dryRun hdry] at hcalls

/-- A pass in earnest that is not cancelled makes calls for every expired resource. -/
theorem Concludes.perm_called (h : t.Concludes s v) (hcancelled : v.result.cancelled = false)
    (hdry : t.plan.dryRun = false) : (t.called s.pass).Perm t.expired := by
  obtain ⟨events, hevents⟩ := h.events
  have hsize : s.pass.stages.size = t.expired.length := by
    rw [hevents]
    exact (Pass.size_stages_run t.plan t.bucket t.clock.moment events).trans t.size_plan
  have hledger : s.pass.Ledger := hevents ▸ Pass.settlements_run t.plan t.bucket t.clock.moment events
  have hnumbers : ((s.pass.calls.map (·.2)).dedup).Perm (List.range t.expired.length) := by
    refine (List.perm_ext_iff_of_nodup (List.nodup_dedup _) List.nodup_range).mpr fun i => ?_
    rw [List.mem_dedup, List.mem_map, List.mem_range]
    constructor
    · rintro ⟨call, hcall, rfl⟩
      rw [hevents] at hcall
      exact t.size_plan ▸ Pass.lt_size_of_mem_calls t.plan t.bucket t.clock.moment events hcall
    · intro hi
      obtain ⟨d, hs⟩ := Pass.exists_settled (Schedule.isSettled_of_runFor h.run) (hsize ▸ hi)
      have hmem : (t.expired[i]?.getD default, d) ∈ t.outcomes s.pass :=
        List.mem_map.mpr ⟨(i, d), List.mem_reverse.mpr ((hledger.mem_iff i d).mpr hs), rfl⟩
      have hjustified : Pass.IsJustified t.plan s.pass i d := by
        rw [hevents] at hs ⊢
        exact Pass.justified_run t.plan t.bucket t.clock.moment events i _ hs d rfl
      rcases hjustified with ⟨hcut, -⟩ | ⟨-, hdry'⟩ | ⟨-, -, hcalls⟩
      · exact absurd hcut (h.not_cancelled hcancelled hmem)
      · cases hdry.symm.trans hdry'
      · obtain ⟨call, hcall, hi⟩ := List.countP_pos_iff.mp hcalls
        exact ⟨call, hcall, by simpa using hi⟩
  exact (hnumbers.map _).trans (.of_eq (map_getD_range t.expired))

/-- A dry run counts the resources for which calls would be made. -/
theorem Concludes.dryRun_eq {t' : Trial τ} {s' : Schedule τ} {v' : Evaluation τ} (h : t.Concludes s v)
    (h' : t'.Concludes s' v') (hsame : t.Rehearses t') (hdry : t.plan.dryRun = true) (hdry' : t'.plan.dryRun = false)
    (hcancelled : v.result.cancelled = false) (hcancelled' : v'.result.cancelled = false) :
    v.result.dryRun = (t'.called s'.pass).length := by
  rw [h.dryRun_eq_length hcancelled hdry, (h'.perm_called hcancelled' hdry').length_eq, hsame.expired]

/-- An evaluation that is not cancelled before it begins brings each expired resource to one end, in whatever order its
pass goes: its counters are those of the survey and account for all of these ends, it is cancelled if one of them is a
cancellation, and it has a first error if one is a failure. Each failure is reported once if the policy has an identity,
and none is otherwise. A dry run counts the resources for which the same pass in earnest makes calls. -/
theorem counters_are_conserved (t : Trial σ) :
    let begun := Pass.start t.plan t.bucket t.clock.moment
    (∀ events, (begun.run t.plan events).isSettled = true →
      t.Balances (t.outcomes (begun.run t.plan events)) (t.resultOf (begun.run t.plan events)) ∧
      ∀ r d, (r, d) ∈ t.outcomes (begun.run t.plan events) →
        (d = .cancelled → (begun.run t.plan events).cancelled = true) ∧ (d = .dryRun → t.plan.dryRun = true)) ∧
    (∀ v, t.evaluation? = some v →
      (Retry.cancelledBy t.cancelAt t.clock = true → v.result = { cancelled := true } ∧ v.calls = []) ∧
      (Retry.cancelledBy t.cancelAt t.clock = false → ∃ s, t.Concludes s v)) ∧
    (∀ s v, t.Concludes s v →
      t.Balances (t.outcomes s.pass) v.result ∧ ∃ events, s.pass = begun.run t.plan events) ∧
    (∀ delete notify,
      let told := t.inWorld (.logging delete notify t.policy) (t.world, [])
      (told.evaluation?.map fun v => { v with world := v.world.1 }) =
        (t.inWorld (.reporting delete notify t.policy) t.world).evaluation? ∧
      ∀ s v, told.Concludes s v →
        (∀ ref, PolicyRef.ofPolicy t.policy = .ok ref →
          v.world.2.length = v.result.failed ∧
          v.world.2 = (t.outcomes s.pass).filterMap fun outcome =>
            outcome.2.message?.map fun message => (ref, .deletionFailed outcome.1.label message)) ∧
        ∀ reason, PolicyRef.ofPolicy t.policy = .error reason → v.world.2 = []) ∧
    ∀ (τ : Type) (t' : Trial τ) s v s' v', t.Concludes s v → t'.Concludes s' v' → t.Rehearses t' →
      t.plan.dryRun = true → t'.plan.dryRun = false → v.result.cancelled = false → v'.result.cancelled = false →
      v.result.dryRun = (t'.called s'.pass).length := by
  intro begun
  refine ⟨fun events hsettled => ⟨t.balances_run events hsettled, fun r d => t.of_mem_outcomes_run events⟩,
    fun v hv => ⟨fun hcancelled => ?_, fun hbegun => exists_concludes hbegun hv⟩,
    fun s v h => ⟨h.balances, h.events⟩,
    fun delete notify => ⟨Evaluator.evaluate_notes _ _ _ _ _ _ _ _ _ _ (DeleteBackend.notes_logging ..) _,
      fun s v h => ⟨fun ref href => ?_, fun reason href => ?_⟩⟩,
    fun τ t' s v s' v' h h' hsame hdry hdry' hcancelled hcancelled' =>
      h.dryRun_eq h' hsame hdry hdry' hcancelled hcancelled'⟩
  · unfold evaluation? Evaluator.evaluate at hv
    rw [if_pos hcancelled] at hv
    cases hv
    exact ⟨rfl, rfl⟩
  · have hfailed : v.result.failed = (t.outcomes s.pass).countP (·.2.isFailed) := h.balances.failed
    rw [h.notices, hfailed]
    exact ⟨length_noticesOf href _, noticesOf_of_ok href _⟩
  · rw [h.notices]
    exact noticesOf_of_error href _

/-- A deletion of a policy without an identity has failed, and nobody was told. -/
theorem unreported_failure_twoPods :
    PolicyRef.ofPolicy twoPods.policy = .error ".metadata.uid" ∧
      ((twoPods.inWorld (.logging twoPods.backend.answer (fun _ _ calls => calls) twoPods.policy)
        (twoPods.world, [])).evaluation?.map fun v => (v.result.failed, v.world.2)) = some (1, []) := by
  decide +kernel

end Trial

end Reaper
