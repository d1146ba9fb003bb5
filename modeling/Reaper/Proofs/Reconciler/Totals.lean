import Reaper.Proofs.Reconciler.Statuses

/-!
The running total of deletions.

A visit adds what it has deleted to the total in the status that the policy carries. That status may be an older one
than the last that was written: then what was deleted in between is missing from the new total, and from those that are
counted on from it. So the totals count everything exactly when every visit that writes a status was given one since
which nothing has been deleted (`totals_count_all_iff`).

  §1 Deeds  — what a deed has deleted for a policy, and the statuses that it has written.
  §2 Totals — what the totals count.
-/

namespace Reaper

/-- The total of deletions in a status, if there is one. -/
def PolicyStatus.totalOf (s : Option PolicyStatus) : Nat := (s.map (·.totalDeleted)).getD 0

open PolicyStatus (totalOf)

theorem Policy.totalOf_of_totalAfter? {p : Policy} {deleted total : Nat} (h : p.totalAfter? deleted = some total) :
    total = totalOf p.status + deleted := by
  obtain ⟨heq, -⟩ := Option.filter_eq_some_iff.mp h
  exact (Option.some.inj heq).symm

/-! ## §1 Deeds -/

namespace Deed

variable {σ : Type} (out : Surroundings σ) (c : Settings) (uid : String)

/-- The statuses of a policy that a deed has written. -/
def written (d : Deed σ) : List PolicyStatus :=
  ((Question.writes (d.questions out c)).filter (·.1.uid = uid)).map (·.2)

/-- How many resources a visit of a policy has deleted. -/
def deleted (d : Deed σ) : Nat := ((d.act.policy? uid).bind fun _ => d.visit.map (·.deleted)).getD 0

/-- How many resources have been deleted for a policy. -/
def deletedBy : List (Deed σ) → Nat
  | [] => 0
  | d :: earlier => deletedBy earlier + d.deleted uid

variable {out c uid} {d : Deed σ}

theorem written_of_writes {qs : List Question} (hqs : d.questions out c = qs) (h : Question.writes qs = []) :
    d.written out c uid = [] := by
  rw [written, hqs, h]
  rfl

/-- A deed writes no status of a policy and deletes nothing for it, or adds what it has deleted to the total that the
policy carried. -/
theorem IsGenuine.written_cases (h : d.IsGenuine out c) (uid : String) :
    (d.written out c uid = [] ∧ d.deleted uid = 0) ∨
      ∃ p status, d.act.policy? uid = some p ∧ d.written out c uid = [status] ∧
        status.totalDeleted = totalOf p.status + d.deleted uid := by
  have hnone (hpolicy : d.act.policy? uid = none) : d.deleted uid = 0 := by simp [deleted, hpolicy]
  cases hact : d.act with
  | apply p =>
    obtain ⟨result, hvisit, hcourse⟩ := h.exists_course hact
    have hqs : d.questions out c = ((Reconciling.apply c p).asked (Engine.answer out c) d.before).map (·.1) := by
      rw [questions, hact]
    have hidle (hresult : ∀ v, result = .ok v → v.deleted = 0) : d.deleted uid = 0 := by
      unfold deleted
      rw [hvisit]
      cases result with
      | error err => simp [Except.toOption]
      | ok v =>
        cases d.act.policy? uid with
        | none => rfl
        | some _ => exact hresult v rfl
    generalize (Reconciling.apply c p).asked (Engine.answer out c) d.before = t at hqs hcourse
    generalize hresult : some (result, d.after) = r at hcourse
    cases hcourse with
    | nameless href =>
      obtain ⟨rfl, -⟩ := Prod.mk.inj (Option.some.inj hresult)
      refine .inl ⟨written_of_writes hqs rfl, hidle fun v hv' => ?_⟩
      cases hv'
    | aside href hleads ht hv =>
      obtain ⟨rfl, -⟩ := Prod.mk.inj (Option.some.inj hresult)
      refine .inl ⟨written_of_writes (hqs.trans ht) rfl, hidle fun v hv' => ?_⟩
      cases hv'
      simp [Visit.deleted, hv]
    | early href hleads hleft ht =>
      obtain ⟨rfl, -⟩ := Prod.mk.inj (Option.some.inj hresult)
      refine .inl ⟨written_of_writes (hqs.trans ht) rfl, hidle fun v hv' => ?_⟩
      cases hv'
      rfl
    | @due ref world t r href hleads hleft _ _ hdue =>
      cases hdue with
      | broken hwrites _ _ => cases hresult
      | @written status v e' hwrites _ _ htotal _ =>
        obtain ⟨rfl, -⟩ := Prod.mk.inj (Option.some.inj hresult)
        have hpolicy := Chronicle.policy?_apply (σ := σ) href uid
        by_cases huid : ref.uid = uid
        · rw [if_pos huid] at hpolicy
          refine .inr ⟨p, status, by rw [hpolicy], ?_, ?_⟩
          · simp [written, hqs, hwrites, huid]
          · rw [Policy.totalOf_of_totalAfter? htotal, deleted, hact, hpolicy, hvisit]
            rfl
        · rw [if_neg huid] at hpolicy
          exact .inl ⟨by simp [written, hqs, hwrites, huid], hnone (by rw [hact, hpolicy])⟩
  | _ =>
    have hqs : d.questions out c = [] := by rw [questions, hact]
    exact .inl ⟨written_of_writes hqs rfl, hnone (by rw [hact]; rfl)⟩

/-! ## §2 Totals -/

section Totals

variable (out c uid) (first : Option PolicyStatus)

/-- A status is the first one, or one that has been written since. -/
def IsKnown (status : Option PolicyStatus) : List (Deed σ) → Prop
  | [] => status = first
  | d :: earlier => (∃ s ∈ d.written out c uid, status = some s) ∨ IsKnown status earlier

/-- A status is the first one, or one that has been written since, and nothing has been deleted after that. -/
def IsUpToDate (status : Option PolicyStatus) : List (Deed σ) → Prop
  | [] => status = first
  | d :: earlier => (∃ s ∈ d.written out c uid, status = some s) ∨ d.deleted uid = 0 ∧ IsUpToDate status earlier

/-- Whenever the policy was visited, it carried the first status or one that had been written by then. -/
def CarriesKnown : List (Deed σ) → Prop
  | [] => True
  | d :: earlier => (∀ p, d.act.policy? uid = some p → IsKnown out c uid first p.status earlier) ∧ CarriesKnown earlier

/-- Whenever a status was written, the policy had carried one since which nothing had been deleted. -/
def CarriesUpToDate : List (Deed σ) → Prop
  | [] => True
  | d :: earlier =>
    (d.written out c uid ≠ [] → ∀ p, d.act.policy? uid = some p → IsUpToDate out c uid first p.status earlier) ∧
      CarriesUpToDate earlier

/-- Every status that was written tells the first total and all that had been deleted by then. -/
def CountsAll : List (Deed σ) → Prop
  | [] => True
  | d :: earlier =>
    (∀ s ∈ d.written out c uid, s.totalDeleted = totalOf first + deletedBy uid (d :: earlier)) ∧ CountsAll earlier

variable {out c uid first} {status : Option PolicyStatus} {deeds : List (Deed σ)}

/-- Where all has been counted, no status that is known counts more. -/
theorem totalOf_le (hcounts : CountsAll out c uid first deeds) (h : IsKnown out c uid first status deeds) :
    totalOf status ≤ totalOf first + deletedBy uid deeds := by
  induction deeds with
  | nil =>
    rw [show status = first from h]
    exact Nat.le_add_right _ _
  | cons d earlier ih =>
    rcases h with ⟨s, hs, rfl⟩ | h
    · exact Nat.le_of_eq (hcounts.1 s hs)
    · have hle := ih hcounts.2 h
      rw [deletedBy]
      omega

/-- Where all has been counted, a status counts it all if nothing has been deleted since, and only then. -/
theorem isUpToDate_iff (hcounts : CountsAll out c uid first deeds) (h : IsKnown out c uid first status deeds) :
    IsUpToDate out c uid first status deeds ↔ totalOf status = totalOf first + deletedBy uid deeds := by
  induction deeds with
  | nil => exact iff_of_true h (by rw [show status = first from h]; rfl)
  | cons d earlier ih =>
    constructor
    · rintro (⟨s, hs, rfl⟩ | ⟨hnone, hup⟩)
      · exact hcounts.1 s hs
      · rcases h with ⟨s, hs, rfl⟩ | h
        · exact hcounts.1 s hs
        · rw [deletedBy, hnone, Nat.add_zero]
          exact (ih hcounts.2 h).mp hup
    · intro htotal
      rcases h with ⟨s, hs, rfl⟩ | h
      · exact .inl ⟨s, hs, rfl⟩
      · have hle := totalOf_le hcounts.2 h
        rw [deletedBy] at htotal
        have hnone : d.deleted uid = 0 := by omega
        refine .inr ⟨hnone, (ih hcounts.2 h).mpr (by omega)⟩

/-- The totals count everything exactly when every status that was carried was up to date. -/
theorem countsAll_iff (hgenuine : ∀ d ∈ deeds, d.IsGenuine out c) (hknown : CarriesKnown out c uid first deeds) :
    CountsAll out c uid first deeds ↔ CarriesUpToDate out c uid first deeds := by
  induction deeds with
  | nil => exact Iff.rfl
  | cons d earlier ih =>
    obtain ⟨hd, hrest⟩ := List.forall_mem_cons.mp hgenuine
    have hearlier := ih hrest hknown.2
    -- the status that the deed writes, if everything before it is counted
    have hlast (hcounts : CountsAll out c uid first earlier) :
        (∀ s ∈ d.written out c uid, s.totalDeleted = totalOf first + deletedBy uid (d :: earlier)) ↔
          (d.written out c uid ≠ [] →
            ∀ p, d.act.policy? uid = some p → IsUpToDate out c uid first p.status earlier) := by
      obtain ⟨hnone, -⟩ | ⟨p, s, hpolicy, hwritten, htotal⟩ := hd.written_cases uid
      · simp [hnone]
      · have hiff := isUpToDate_iff hcounts (hknown.1 p hpolicy)
        rw [hwritten, hpolicy]
        simp only [List.mem_singleton, forall_eq, ne_eq, List.cons_ne_self, not_false_eq_true, forall_const,
          Option.some.injEq, forall_eq', htotal, deletedBy]
        rw [hiff]
        omega
    constructor
    · intro hcounts
      exact ⟨(hlast hcounts.2).mp hcounts.1, hearlier.mp hcounts.2⟩
    · intro hup
      have hcounts := hearlier.mpr hup.2
      exact ⟨(hlast hcounts).mpr hup.1, hcounts⟩

end Totals

end Deed

namespace Chronicle

variable {σ : Type} {out : Surroundings σ} {c : Settings}

/-- However a reconciler is used, each status that it writes adds what the visit has deleted to the total that the policy
carried. If the policies that it is given carry statuses that it has written before, or the first one, the totals count
all deletions exactly when each visit that wrote a status was given one since which nothing had been deleted. -/
theorem totals_count_all_iff {e : Engine σ} {acts : List (Act σ)} {s : Chronicle σ}
    (hrun : run out c ⟨e, []⟩ acts = some s) (uid : String) (first : Option PolicyStatus)
    (hknown : Deed.CarriesKnown out c uid first s.deeds) :
    (∀ d ∈ s.deeds, ∀ status ∈ d.written out c uid,
      ∃ p, d.act.policy? uid = some p ∧ status.totalDeleted = totalOf p.status + d.deleted uid) ∧
    (Deed.CountsAll out c uid first s.deeds ↔ Deed.CarriesUpToDate out c uid first s.deeds) := by
  have hgenuine := isGenuine_run hrun (by simp)
  refine ⟨fun d hd status hstatus => ?_, Deed.countsAll_iff hgenuine hknown⟩
  obtain ⟨hnone, -⟩ | ⟨p, st, hpolicy, hwritten, htotal⟩ := (hgenuine d hd).written_cases uid
  · simp [hnone] at hstatus
  · rw [hwritten, List.mem_singleton] at hstatus
    exact ⟨p, hpolicy, hstatus ▸ htotal⟩

/-- What a visit of the hourly policy leaves, with the totals that it writes and what it deletes. -/
def hourlyVisit (e : Engine Rehearsal) : Option ((List Nat × Nat) × Engine Rehearsal) :=
  (e.apply steady {} Engine.hourly).map fun r =>
    let qs := ((Reconciling.apply {} Engine.hourly).asked (Engine.answer steady {}) e).map (·.1)
    ((((Question.writes qs).filter (·.1.uid = "p-1")).map (·.2.totalDeleted), (r.1.toOption.map (·.deleted)).getD 0), r.2)

theorem policy?_hourly {p : Policy} (h : (Act.apply (σ := Rehearsal) Engine.hourly).policy? "p-1" = some p) :
    p = Engine.hourly := by
  have hpolicy : (Act.apply (σ := Rehearsal) Engine.hourly).policy? "p-1" = some Engine.hourly := rfl
  exact Option.some.inj (h.symm.trans hpolicy)

theorem exists_act_of_hourlyVisit {e e' : Engine Rehearsal} {totals : List Nat} {deleted : Nat}
    (h : hourlyVisit e = some ((totals, deleted), e')) :
    ∃ visit, e.act steady {} (.apply Engine.hourly) = some (visit, e') ∧
      (Deed.written steady {} "p-1" ⟨.apply Engine.hourly, e, e', visit⟩).map (·.totalDeleted) = totals ∧
      Deed.deleted "p-1" ⟨.apply Engine.hourly, e, e', visit⟩ = deleted := by
  obtain ⟨r, happly, heq⟩ := Option.map_eq_some_iff.mp h
  obtain ⟨hcounts, rfl⟩ := Prod.mk.inj heq
  obtain ⟨rfl, rfl⟩ := Prod.mk.inj hcounts
  refine ⟨r.1.toOption, by rw [Engine.act, happly]; rfl, ?_, rfl⟩
  rw [Deed.written, List.map_map]
  rfl

/-- An hour later the pod is still in the snapshot. -/
def anHourLater : Rehearsal := { Engine.onePod.world with now := ⟨10800, 0⟩ }

/-- The hourly policy is visited twice, an hour apart, and carries its first status both times. -/
theorem exists_hourlyVisits : ∃ e₁ e₂,
    hourlyVisit Engine.onePod = some (([1], 1), e₁) ∧
      hourlyVisit { e₁ with world := anHourLater } = some (([1], 1), e₂) := by
  have hvisits : ((hourlyVisit Engine.onePod).bind fun r =>
      (hourlyVisit { r.2 with world := anHourLater }).map fun r' => (r.1, r'.1)) = some (([1], 1), ([1], 1)) := by
    unfold hourlyVisit Engine.apply Reconciling.apply Reconciling.visit
    rw [Engine.target_hourly]
    decide +kernel
  obtain ⟨⟨counts, e₁⟩, hfirst, hrest⟩ := Option.bind_eq_some_iff.mp hvisits
  obtain ⟨⟨counts', e₂⟩, hsecond, heq⟩ := Option.map_eq_some_iff.mp hrest
  cases heq
  exact ⟨e₁, e₂, hfirst, hsecond⟩

/-- A policy that was visited once: the total counts what was deleted. -/
theorem totals_count_all_once :
    ∃ s, run steady {} ⟨Engine.onePod, []⟩ [.apply Engine.hourly] = some s ∧
      Deed.CarriesKnown steady {} "p-1" Engine.hourly.status s.deeds ∧
      Deed.CountsAll steady {} "p-1" Engine.hourly.status s.deeds ∧ Deed.deletedBy "p-1" s.deeds = 1 := by
  obtain ⟨e₁, -, hfirst, -⟩ := exists_hourlyVisits
  obtain ⟨visit, hact, -, hdeleted⟩ := exists_act_of_hourlyVisit hfirst
  have hrun : run steady {} ⟨Engine.onePod, []⟩ [.apply Engine.hourly] =
      some ⟨e₁, [⟨.apply Engine.hourly, Engine.onePod, e₁, visit⟩]⟩ := by
    rw [run_cons hact]
    rfl
  have hknown : Deed.CarriesKnown steady {} "p-1" Engine.hourly.status
      [⟨.apply Engine.hourly, Engine.onePod, e₁, visit⟩] :=
    ⟨fun p hp => congrArg Policy.status (policy?_hourly hp), trivial⟩
  have hup : Deed.CarriesUpToDate steady {} "p-1" Engine.hourly.status
      [⟨.apply Engine.hourly, Engine.onePod, e₁, visit⟩] :=
    ⟨fun _ p hp => congrArg Policy.status (policy?_hourly hp), trivial⟩
  exact ⟨_, hrun, hknown, (totals_count_all_iff hrun "p-1" _ hknown).2.mpr hup, by simp [Deed.deletedBy, hdeleted]⟩

/-- A policy that was visited twice with its first status: the second total does not count what the first visit
deleted. -/
theorem not_countsAll_stale :
    ∃ s, run steady {} ⟨Engine.onePod, []⟩ [.apply Engine.hourly, .meanwhile anHourLater, .apply Engine.hourly] =
        some s ∧
      Deed.CarriesKnown steady {} "p-1" Engine.hourly.status s.deeds ∧
      ¬ Deed.CountsAll steady {} "p-1" Engine.hourly.status s.deeds := by
  obtain ⟨e₁, e₂, hfirst, hsecond⟩ := exists_hourlyVisits
  obtain ⟨visit₁, hact₁, -, hdeleted₁⟩ := exists_act_of_hourlyVisit hfirst
  obtain ⟨visit₂, hact₂, hwritten₂, hdeleted₂⟩ := exists_act_of_hourlyVisit hsecond
  have hlater : e₁.act steady {} (.meanwhile anHourLater) = some (none, { e₁ with world := anHourLater }) := rfl
  have hrun : run steady {} ⟨Engine.onePod, []⟩
      [.apply Engine.hourly, .meanwhile anHourLater, .apply Engine.hourly] =
      some ⟨e₂, [⟨.apply Engine.hourly, { e₁ with world := anHourLater }, e₂, visit₂⟩,
        ⟨.meanwhile anHourLater, e₁, { e₁ with world := anHourLater }, none⟩,
        ⟨.apply Engine.hourly, Engine.onePod, e₁, visit₁⟩]⟩ := by
    rw [run_cons hact₁, run_cons hlater, run_cons hact₂]
    rfl
  have hidle : (Act.meanwhile anHourLater).policy? "p-1" = none := rfl
  refine ⟨_, hrun, ⟨fun p hp => ?_, fun p hp => ?_, fun p hp => ?_, trivial⟩, fun hcounts => ?_⟩
  · exact .inr (.inr (congrArg Policy.status (policy?_hourly hp)))
  · cases hidle.symm.trans hp
  · exact congrArg Policy.status (policy?_hourly hp)
  · have htotal : ∀ total ∈ [1], total = 2 := by
      rw [← hwritten₂]
      refine List.forall_mem_map.mpr fun status hstatus => ?_
      rw [hcounts.1 status hstatus]
      simp [Deed.deletedBy, hdeleted₁, hdeleted₂]
      rfl
    simp at htotal

end Chronicle

end Reaper
