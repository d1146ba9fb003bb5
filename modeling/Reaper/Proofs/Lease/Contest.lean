import Reaper.Lease.Contest
import Reaper.Proofs.Lease.Exchanges

/-!
A live lease is never stolen.

A candidate decides on its move when it reads the lease, and the move may arrive much later. It is still the right one
then, because the server accepts it only if the lease has the version that was read, and a version belongs to one lease
for ever. So every write that the server accepts is due (`LeaseWrite.IsDue`), judged by the lease that it replaces.

  §1 Moves    — what a move writes, and when it is made.
  §2 Versions — what is known of a lease that was read, whatever has been written since.
  §3 Writes   — every step keeps what is known of the claims and of the writes.
-/

namespace Reaper

/-- At an instant nobody has a claim to the lease: it has no holder, it does not say until when it is held, or that time
is over. -/
inductive LeaseSpec.IsFree (s : LeaseSpec) (now : Instant) : Prop where
  | unheld (h : s.holder = none ∨ s.holder = some "")
  | unbounded (h : s.renewed = none ∨ s.durationSeconds = none)
  | over (renewed : Instant) (seconds : Int) (deadline : Instant) (hrenewed : s.renewed = some renewed)
      (hseconds : s.durationSeconds = some seconds) (hdeadline : renewed.addSeconds? seconds = some deadline)
      (hover : deadline < now)

/-- The write creates a lease that was missing, renews the writer's own, or takes over one that is free. -/
inductive LeaseWrite.IsDue (w : LeaseWrite) : Prop where
  | creation (missing : w.before = none) (acquired : w.after.spec.acquired = some w.now.wholeMicros)
      (transitions : w.after.spec.transitions = some 0)
  /-- a renewal keeps the time of acquisition and the transitions -/
  | renewal (l : Lease) (before : w.before = some l) (own : l.spec.holder = some w.writer.identity)
      (acquired : w.after.spec.acquired = some (l.spec.acquired.getD w.now.wholeMicros))
      (transitions : w.after.spec.transitions = some (l.spec.transitions.getD 0))
  /-- a takeover counts as one more transition -/
  | takeover (l : Lease) (before : w.before = some l) (other : l.spec.holder ≠ some w.writer.identity)
      (free : l.spec.IsFree w.now) (acquired : w.after.spec.acquired = some w.now.wholeMicros)
      (transitions : w.after.spec.transitions = some (l.spec.transitions.getD 0 + 1))

/-- The version of the lease that the write replaced. -/
def LeaseWrite.replaced? (w : LeaseWrite) : Option String := w.before.bind Lease.version?

/-! ## §1 Moves -/

/-- A lease counts as expired only when it is free. -/
theorem LeaseSpec.isFree_of_expired? {s : LeaseSpec} {now : Instant} (h : s.expired? now = some true) :
    s.IsFree now := by
  unfold expired? at h
  split at h
  · rename_i hheld
    refine .unheld ?_
    cases hholder : s.holder with
    | none => exact .inl rfl
    | some name => simpa [isHeld, hholder] using hheld
  · unfold deadline? at h
    cases hrenewed : s.renewed with
    | none => exact .unbounded (.inl hrenewed)
    | some renewed =>
      cases hseconds : s.durationSeconds with
      | none => exact .unbounded (.inr hseconds)
      | some seconds =>
        simp only [hrenewed, hseconds, Option.bind_eq_bind, Option.bind_some] at h
        obtain ⟨deadline, hdeadline, hover⟩ := Option.map_eq_some_iff.mp h
        exact .over renewed seconds deadline hrenewed hseconds hdeadline (of_decide_eq_true hover)

namespace Candidate

variable {c : Candidate} {now : Instant}

/-- What a candidate wants the lease to say. -/
def wish (c : Candidate) (acquired renewed : Instant) (transitions : Int) : LeaseSpec :=
  { holder := some c.identity, durationSeconds := some c.leaseDuration.secs, acquired := some acquired
    renewed := some renewed, transitions := some transitions }

/-- A move either writes the candidate's wish or is none. -/
theorem moveTo_hold (write : LeaseSpec → LeaseMove) (acquired renewed : Instant) (transitions : Int) :
    moveTo write (c.hold acquired renewed transitions) = write (c.wish acquired renewed transitions) ∨
      moveTo write (c.hold acquired renewed transitions) = .refrain .durationTooLarge := by
  unfold hold
  split
  · exact .inl rfl
  · exact .inr rfl

/-- A candidate that finds no lease creates one, or makes no move. -/
theorem move?_none {m : LeaseMove} (h : c.move? now none = some m) :
    (∃ metadata, m = .create ⟨metadata, c.wish now now 0⟩) ∨ ∃ e, m = .refrain e := by
  obtain rfl := Option.some.inj h
  rcases moveTo_hold (c := c) (fun s => .create ⟨_, s⟩) now now 0 with hmove | hmove
  · exact .inl ⟨_, hmove⟩
  · exact .inr ⟨_, hmove⟩

/-- A candidate that finds a lease renews its own, takes over one that is free, or makes no move. -/
theorem move?_some {l : Lease} {m : LeaseMove} (h : c.move? now (some l) = some m) :
    (l.spec.holder = some c.identity ∧
      m = .replace ⟨l.metadata, c.wish (l.spec.acquired.getD now) now (l.spec.transitions.getD 0)⟩) ∨
    (l.spec.holder ≠ some c.identity ∧ l.spec.IsFree now ∧
      m = .replace ⟨l.metadata, c.wish now now (l.spec.transitions.getD 0 + 1)⟩) ∨
    ∃ e, m = .refrain e := by
  simp only [move?, owns, decide_eq_true_eq] at h
  split at h
  · rename_i hown
    obtain rfl := Option.some.inj h
    rcases moveTo_hold (c := c) (fun s => .replace ⟨l.metadata, s⟩) (l.spec.acquired.getD now) now
      (l.spec.transitions.getD 0) with hmove | hmove
    · exact .inl ⟨hown, hmove⟩
    · exact .inr (.inr ⟨_, hmove⟩)
  · rename_i hother
    split at h
    · cases h
    · exact .inr (.inr ⟨_, (Option.some.inj h).symm⟩)
    · rename_i hexpired
      split at h
      · cases h
      · obtain rfl := Option.some.inj h
        rcases moveTo_hold (c := c) (fun s => .replace ⟨l.metadata, s⟩) now now (l.spec.transitions.getD 0 + 1)
          with hmove | hmove
        · exact .inr (.inl ⟨hother, LeaseSpec.isFree_of_expired? hexpired, hmove⟩)
        · exact .inr (.inr ⟨_, hmove⟩)

end Candidate

namespace LeaseContest

variable {s : LeaseContest}

/-! ## §2 Versions -/

/-- The lease has a version that was given to it. -/
def IsKnown (s : LeaseContest) (l : Lease) : Prop := ∃ v ∈ s.versions, l.version? = some v

/-- Nothing but the lease itself bears its version. -/
structure IsCopy (s : LeaseContest) (l : Lease) : Prop where
  known : s.IsKnown l
  unique : ∀ current, s.current = some current → current.version? = l.version? → current = l

/-- The lease has been replaced for good. -/
structure IsPast (s : LeaseContest) (l : Lease) : Prop where
  known : s.IsKnown l
  replaced : ∀ current, s.current = some current → current.version? ≠ l.version?

/-- A fresh version belongs to no lease so far. -/
theorem version_ne_of_isFresh {new l : Lease} (hfresh : s.isFresh new.metadata = true) (hl : s.IsKnown l) :
    new.version? ≠ l.version? := by
  intro heq
  obtain ⟨v, hv, hversion⟩ := hl
  rw [hversion] at heq
  simp only [isFresh, show new.metadata.resourceVersion = some v from heq, Option.any_some,
    decide_eq_true_eq] at hfresh
  exact hfresh hv

theorem IsKnown.keep {l : Lease} (h : s.IsKnown l) (new : Lease) : (s.keep new).IsKnown l := by
  obtain ⟨v, hv, hversion⟩ := h
  exact ⟨v, List.mem_append_right _ hv, hversion⟩

/-- A lease with a fresh version replaces every lease that was there before. -/
theorem IsKnown.isPast_keep {l new : Lease} (h : s.IsKnown l) (hfresh : s.isFresh new.metadata = true) :
    (s.keep new).IsPast l := by
  refine ⟨h.keep new, fun current hcurrent => ?_⟩
  obtain rfl := Option.some.inj hcurrent
  exact version_ne_of_isFresh hfresh h

/-- A copy stays one when another lease is kept. -/
theorem IsCopy.keep {l new : Lease} (h : s.IsCopy l) (hfresh : s.isFresh new.metadata = true) :
    (s.keep new).IsCopy l :=
  have hpast := h.known.isPast_keep hfresh
  ⟨hpast.known, fun current hcurrent hversion => absurd hversion (hpast.replaced current hcurrent)⟩

/-! ## §3 Writes -/

/-- What a claim has learned and what it has done. -/
inductive Stands (s : LeaseContest) (i : Nat) (claim : LeaseClaim) : Prop where
  | reading (rest : claim.rest = claim.candidate.plan claim.now)
  | creating (metadata : Metadata)
      (rest : claim.rest = Candidate.make (.create ⟨metadata, claim.candidate.wish claim.now claim.now 0⟩))
  /-- the lease that was found, and what the move does to it if it is still there -/
  | replacing (found l : Lease) (copy : s.IsCopy found)
      (move : claim.candidate.move? claim.now (some found) = some (.replace l))
      (rest : claim.rest = Candidate.make (.replace l))
  | ended (outcome : Option (Except ClaimError Unit)) (rest : claim.rest = .done outcome)
      (success : outcome = some (.ok ()) →
        ∃ w ∈ s.writes, w.claim = i ∧ w.writer = claim.candidate ∧ w.now = claim.now)

/-- What a claim has learned stays true while copies stay copies and writes are remembered. -/
theorem Stands.mono {s' : LeaseContest} {i : Nat} {claim : LeaseClaim} (h : s.Stands i claim)
    (hwrites : ∀ w ∈ s.writes, w ∈ s'.writes) (hcopy : ∀ l, s.IsCopy l → s'.IsCopy l) : s'.Stands i claim := by
  cases h with
  | reading rest => exact .reading rest
  | creating metadata rest => exact .creating metadata rest
  | replacing found l copy move rest => exact .replacing found l (hcopy found copy) move rest
  | ended outcome rest success =>
    refine .ended outcome rest fun h => ?_
    obtain ⟨w, hw, hclaim⟩ := success h
    exact ⟨w, hwrites w hw, hclaim⟩

/-- What holds of a lease and the claims to it, whatever has happened. -/
structure Sound (s : LeaseContest) : Prop where
  known : ∀ l, s.current = some l → s.IsKnown l
  kept : ∀ l, s.current = some l → l.spec.kept = l.spec
  stands : ∀ i claim, s.claims[i]? = some claim → s.Stands i claim
  due : ∀ w ∈ s.writes, w.IsDue ∧ w.after.spec.holder = some w.writer.identity
  past : ∀ w ∈ s.writes, ∀ l, w.before = some l → s.IsPast l
  once : (s.writes.filterMap LeaseWrite.replaced?).Nodup

/-- A claim that has read the lease knows what to do. -/
theorem Sound.stands_afterRead (h : s.Sound) (i : Nat) (claim : LeaseClaim) :
    s.Stands i { claim with rest := claim.candidate.afterRead claim.now (.ok s.current) } := by
  have hrefrain (e : ClaimError) : s.Stands i { claim with rest := Candidate.make (.refrain e) } :=
    .ended (some (.error e)) rfl fun h => by cases h
  simp only [Candidate.afterRead]
  cases hmove : claim.candidate.move? claim.now s.current with
  | none => exact .ended none rfl fun h => by cases h
  | some m =>
    dsimp only
    cases hcurrent : s.current with
    | none =>
      rw [hcurrent] at hmove
      obtain ⟨metadata, rfl⟩ | ⟨e, rfl⟩ := Candidate.move?_none hmove
      · exact .creating metadata rfl
      · exact hrefrain e
    | some found =>
      rw [hcurrent] at hmove
      have hcopy : s.IsCopy found :=
        ⟨h.known found hcurrent, fun current hc _ => Option.some.inj (hc.symm.trans hcurrent)⟩
      obtain ⟨-, rfl⟩ | ⟨-, -, rfl⟩ | ⟨e, rfl⟩ := Candidate.move?_some hmove
      · exact .replacing found _ hcopy hmove rfl
      · exact .replacing found _ hcopy hmove rfl
      · exact hrefrain e

/-- A claim goes on. -/
theorem Sound.goOn (h : s.Sound) {i : Nat} {claim : LeaseClaim}
    {rest : LeaseProgram (Option (Except ClaimError Unit))} (hrest : s.Stands i { claim with rest }) :
    (s.goOn i claim rest).Sound := by
  have hmono {j : Nat} {other : LeaseClaim} (hj : s.Stands j other) : (s.goOn i claim rest).Stands j other :=
    hj.mono (fun _ hw => hw) fun _ hl => ⟨hl.known, hl.unique⟩
  refine ⟨h.known, h.kept, fun j other hj => ?_, h.due, fun w hw l hl => ?_, h.once⟩
  · simp only [LeaseContest.goOn, Array.getElem?_setIfInBounds] at hj
    split at hj
    · rename_i heq
      subst heq
      split at hj
      · obtain rfl := Option.some.inj hj
        exact hmono hrest
      · cases hj
    · exact hmono (h.stands j other hj)
  · exact ⟨(h.past w hw l hl).known, (h.past w hw l hl).replaced⟩

/-- A call that fails ends its claim without success. -/
theorem Sound.refuse (h : s.Sound) (i : Nat) (claim : LeaseClaim) (fault : Fault) :
    (s.goOn i claim (.done (some (Candidate.written (.error fault))))).Sound := by
  refine h.goOn (.ended _ rfl fun hok => ?_)
  exact absurd ((Candidate.written_eq_ok_iff _).mp (Option.some.inj hok)) nofun

/-- A lease is kept that has never been there. -/
theorem Sound.keep (h : s.Sound) {l : Lease} (hfresh : s.isFresh l.metadata = true) (hkept : l.spec.kept = l.spec) :
    (s.keep l).Sound := by
  refine ⟨fun new hnew => ?_, fun new hnew => ?_, fun i claim hi => ?_, h.due, fun w hw old hold => ?_, h.once⟩
  · obtain rfl := Option.some.inj hnew
    cases hv : l.version? with
    | none => simp [isFresh, show l.metadata.resourceVersion = none from hv] at hfresh
    | some v => exact ⟨v, List.mem_append_left _ (Option.mem_toList.mpr hv), hv⟩
  · obtain rfl := Option.some.inj hnew
    exact hkept
  · exact (h.stands i claim hi).mono (fun _ hw => hw) fun _ hl => hl.keep hfresh
  · exact (h.past w hw old hold).known.isPast_keep hfresh

/-- A write is accepted that is due. -/
theorem Sound.accept (h : s.Sound) {i : Nat} {claim : LeaseClaim} {l : Lease}
    (hfresh : s.isFresh l.metadata = true) (hkept : l.spec.kept = l.spec)
    (hdue : LeaseWrite.IsDue ⟨i, claim.candidate, claim.now, s.current, l⟩)
    (hholder : l.spec.holder = some claim.candidate.identity) (reply : Except Fault Lease) :
    ((s.accept i claim (some l)).goOn i claim (.done (some (Candidate.written reply)))).Sound := by
  have hkeep := h.keep hfresh hkept
  have hmono {j : Nat} {other : LeaseClaim} (hj : (s.keep l).Stands j other) :
      (s.accept i claim (some l)).Stands j other :=
    hj.mono (fun _ hw => List.mem_cons_of_mem _ hw) fun _ hl => ⟨hl.known, hl.unique⟩
  have haccept : (s.accept i claim (some l)).Sound := by
    refine ⟨hkeep.known, hkeep.kept, fun j other hj => hmono (hkeep.stands j other hj), ?_, ?_, ?_⟩
    · exact List.forall_mem_cons.mpr ⟨⟨hdue, hholder⟩, h.due⟩
    · refine List.forall_mem_cons.mpr ⟨fun old hold => ?_, fun w hw old hold => ?_⟩
      · have hpast := (h.known old hold).isPast_keep hfresh
        exact ⟨hpast.known, hpast.replaced⟩
      · have hpast := hkeep.past w hw old hold
        exact ⟨hpast.known, hpast.replaced⟩
    · simp only [LeaseContest.accept, List.filterMap_cons]
      split
      · exact h.once
      · rename_i v hv
        refine List.nodup_cons.mpr ⟨fun hmem => ?_, h.once⟩
        -- a write that replaced this version before has made the current lease bear another one
        obtain ⟨w, hw, hreplaced⟩ := List.mem_filterMap.mp hmem
        obtain ⟨current, hcurrent, hversion⟩ := Option.bind_eq_some_iff.mp hv
        obtain ⟨old, hold, holdVersion⟩ := Option.bind_eq_some_iff.mp hreplaced
        exact (h.past w hw old hold).replaced current hcurrent (hversion.trans holdVersion.symm)
  refine haccept.goOn (.ended _ rfl fun _ => ?_)
  exact ⟨_, List.mem_cons_self .., rfl, rfl, rfl⟩

/-- The server keeps times in whole microseconds. -/
theorem kept_kept (spec : LeaseSpec) : spec.kept.kept = spec.kept := by
  have htwice (t : Instant) : t.wholeMicros.wholeMicros = t.wholeMicros := by
    simp only [Instant.wholeMicros, Nat.mul_div_cancel _ (show 0 < 1000 by decide)]
  simp only [LeaseSpec.kept, Option.map_map, Function.comp_def, htwice]

/-- The server creates a lease only where there is none. -/
theorem reply_create (s : LeaseContest) (metadata : Metadata) (l : Lease) :
    (s.current = none ∧
      s.reply metadata (.create l) = (.ok (l.keptWith metadata), some (l.keptWith metadata))) ∨
    ∃ fault, s.reply metadata (.create l) = (.error fault, none) := by
  unfold reply
  split
  · exact .inl ⟨‹_›, rfl⟩
  · exact .inr ⟨_, rfl⟩

/-- The server replaces only the lease that bears the version of the new one. -/
theorem reply_replace (s : LeaseContest) (metadata : Metadata) (l : Lease) :
    (∃ current, s.current = some current ∧ current.version? = l.version? ∧
      s.reply metadata (.replace l) = (.ok (l.keptWith metadata), some (l.keptWith metadata))) ∨
    ∃ fault, s.reply metadata (.replace l) = (.error fault, none) := by
  dsimp only [reply]
  split
  · rename_i h
    obtain ⟨current, hcurrent, hversion⟩ := (Option.any_eq_true _ _).mp h
    exact .inl ⟨current, hcurrent, of_decide_eq_true hversion, rfl⟩
  · exact .inr ⟨_, rfl⟩

/-- A move that was computed from the current lease is due. -/
theorem Sound.due_replace (h : s.Sound) {i : Nat} {claim : LeaseClaim} {found l : Lease} (metadata : Metadata)
    (hcurrent : s.current = some found) (hmove : claim.candidate.move? claim.now (some found) = some (.replace l)) :
    LeaseWrite.IsDue ⟨i, claim.candidate, claim.now, s.current, l.keptWith metadata⟩ ∧
      (l.keptWith metadata).spec.holder = some claim.candidate.identity := by
  obtain ⟨hown, hl⟩ | ⟨hother, hfree, hl⟩ | ⟨e, hl⟩ := Candidate.move?_some hmove <;> cases hl
  · refine ⟨.renewal found hcurrent hown ?_ rfl, rfl⟩
    have hkept : found.spec.acquired.map Instant.wholeMicros = found.spec.acquired :=
      congrArg LeaseSpec.acquired (h.kept found hcurrent)
    show some (Instant.wholeMicros (found.spec.acquired.getD claim.now)) = _
    cases hacquired : found.spec.acquired with
    | none => rfl
    | some t =>
      rw [hacquired] at hkept
      exact hkept
  · exact ⟨.takeover found hcurrent hother hfree rfl rfl, rfl⟩

theorem Sound.handle (h : s.Sound) {i : Nat} {claim : LeaseClaim} (hi : s.claims[i]? = some claim)
    (metadata : Metadata) (lost : Option Fault) : (s.step (.handle i metadata lost)).Sound := by
  have hkept (l : Lease) : (l.keptWith metadata).spec.kept = (l.keptWith metadata).spec := kept_kept l.spec
  simp only [step, hi]
  cases h.stands i _ hi with
  | reading hrest =>
    rw [hrest]
    dsimp only [Candidate.plan]
    split
    · cases lost with
      | none => exact h.goOn (h.stands_afterRead i claim)
      | some fault => exact h.goOn (.ended _ rfl nofun)
    · exact h
  | creating given hrest =>
    rw [hrest]
    dsimp only [Candidate.make]
    split
    · rename_i hfresh
      obtain ⟨hnone, hreply⟩ | ⟨fault, hreply⟩ :=
        s.reply_create metadata ⟨given, claim.candidate.wish claim.now claim.now 0⟩ <;> rw [hreply]
      · exact h.accept hfresh (hkept _) (.creation hnone rfl rfl) rfl _
      · cases lost with
        | none => exact h.refuse i _ fault
        | some fault => exact h.refuse i _ fault
    · exact h
  | replacing found l hcopy hmove hrest =>
    rw [hrest]
    dsimp only [Candidate.make]
    split
    · rename_i hfresh
      obtain ⟨current, hcurrent, hversion, hreply⟩ | ⟨fault, hreply⟩ := s.reply_replace metadata l <;> rw [hreply]
      · -- the lease that was found bears the version that is written back, and so it is still there
        have hsame : l.version? = found.version? := by
          obtain ⟨-, hl⟩ | ⟨-, -, hl⟩ | ⟨e, hl⟩ := Candidate.move?_some hmove <;> cases hl <;> rfl
        obtain rfl := hcopy.unique current hcurrent (hversion.trans hsame)
        obtain ⟨hdue, hholder⟩ := h.due_replace (i := i) metadata hcurrent hmove
        exact h.accept hfresh (hkept l) hdue hholder _
      · cases lost with
        | none => exact h.refuse i _ fault
        | some fault => exact h.refuse i _ fault
    · exact h
  | ended outcome hrest =>
    rw [hrest]
    exact h

theorem Sound.fail (h : s.Sound) {i : Nat} {claim : LeaseClaim} (hi : s.claims[i]? = some claim) (fault : Fault) :
    (s.step (.fail i fault)).Sound := by
  simp only [step, hi]
  cases h.stands i _ hi with
  | reading hrest =>
    rw [hrest]
    exact h.goOn (.ended _ rfl nofun)
  | creating given hrest =>
    rw [hrest]
    exact h.refuse i claim fault
  | replacing found l hcopy hmove hrest =>
    rw [hrest]
    exact h.refuse i claim fault
  | ended outcome hrest =>
    rw [hrest]
    exact h

theorem Sound.begin (h : s.Sound) (c : Candidate) (now : Instant) : (s.step (.begin c now)).Sound := by
  have hmono {j : Nat} {other : LeaseClaim} (hj : s.Stands j other) : (s.step (.begin c now)).Stands j other :=
    hj.mono (fun _ hw => hw) fun _ hl => ⟨hl.known, hl.unique⟩
  refine ⟨h.known, h.kept, fun j other hj => ?_, h.due, fun w hw l hl => ?_, h.once⟩
  · simp only [step, Array.getElem?_push] at hj
    split at hj
    · obtain rfl := Option.some.inj hj
      exact .reading rfl
    · exact hmono (h.stands j other hj)
  · exact ⟨(h.past w hw l hl).known, (h.past w hw l hl).replaced⟩

/-- Without a lease, what is known of earlier leases stays true. -/
theorem Sound.delete (h : s.Sound) : (s.step (.edit none)).Sound := by
  have hnone {l : Lease} (hl : (s.step (.edit none)).current = some l) : False := by
    simp only [step, reduceCtorEq] at hl
  refine ⟨fun l hl => (hnone hl).elim, fun l hl => (hnone hl).elim, fun i claim hi => ?_, h.due,
    fun w hw l hl => ⟨(h.past w hw l hl).known, fun current hc => (hnone hc).elim⟩, h.once⟩
  exact (h.stands i claim hi).mono (fun _ hw => hw) fun _ hl => ⟨hl.known, fun current hc => (hnone hc).elim⟩

theorem Sound.step (h : s.Sound) (e : LeaseEvent) : (s.step e).Sound := by
  cases e with
  | begin c now => exact h.begin c now
  | handle i metadata lost =>
    cases hi : s.claims[i]? with
    | none => simpa only [LeaseContest.step, hi] using h
    | some claim => exact h.handle hi metadata lost
  | fail i fault =>
    cases hi : s.claims[i]? with
    | none => simpa only [LeaseContest.step, hi] using h
    | some claim => exact h.fail hi fault
  | edit l =>
    cases l with
    | none => exact h.delete
    | some l =>
      simp only [LeaseContest.step]
      split
      · exact h.keep ‹_› (kept_kept l.spec)
      · exact h

theorem Sound.run (h : s.Sound) (events : List LeaseEvent) : (s.run events).Sound := by
  induction events generalizing s with
  | nil => exact h
  | cons e events ih => exact ih (h.step e)

theorem sound_empty : Sound {} := by
  refine ⟨?_, ?_, ?_, ?_, ?_, List.nodup_nil⟩ <;> simp

/-- Whatever happens to a lease and the claims to it, every write that the server accepts is due and makes its writer
the holder, no two writes replace the same version, and a claim succeeds only if a write of its own was accepted. -/
theorem writes_are_due (events : List LeaseEvent) :
    let s := run {} events
    (∀ w ∈ s.writes, w.IsDue ∧ w.after.spec.holder = some w.writer.identity) ∧
    (s.writes.filterMap LeaseWrite.replaced?).Nodup ∧
    ∀ i claim, s.claims[i]? = some claim → claim.rest = .done (some (.ok ())) →
      ∃ w ∈ s.writes, w.claim = i ∧ w.writer = claim.candidate ∧ w.now = claim.now := by
  intro s
  have h : s.Sound := sound_empty.run events
  refine ⟨h.due, h.once, fun i claim hi hdone => ?_⟩
  cases h.stands i claim hi with
  | ended outcome hrest hsuccess =>
    obtain rfl : outcome = some (.ok ()) := by
      rw [hdone] at hrest
      injection hrest with h
      exact h.symm
    exact hsuccess rfl
  | reading hrest => rw [hdone] at hrest; cases hrest
  | creating given hrest => rw [hdone] at hrest; cases hrest
  | replacing found l hcopy hmove hrest => rw [hdone] at hrest; cases hrest

/-- Two candidates find the same expired lease, and both want to take it over. -/
def race : List LeaseEvent :=
  let candidate (identity : String) : Candidate := ⟨identity, "lock", "gc", .ofSecs 15, .ofSecs 5⟩
  let version (v : String) : Metadata := { resourceVersion := some v }
  let old : LeaseSpec :=
    { holder := some "c", durationSeconds := some 15, renewed := some ⟨1000, 0⟩, transitions := some 2 }
  [.edit (some ⟨version "1", old⟩), .begin (candidate "a") ⟨1016, 0⟩, .begin (candidate "b") ⟨1020, 0⟩,
    .handle 0 (version "2") none, .handle 1 (version "2") none, .handle 1 (version "2") none,
    .handle 0 (version "3") none]

/-- The one that comes first has the lease, and the other one is refused. -/
example :
    (run {} race).writes.map (fun w => (w.writer.identity, w.after.spec.transitions)) = [("b", some 3)] := by
  decide +kernel

end LeaseContest

end Reaper
