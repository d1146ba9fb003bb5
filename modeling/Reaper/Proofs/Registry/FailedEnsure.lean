import Reaper.Proofs.Registry.Budget
import Reaper.Proofs.Registry.Holdings

/-!
What `ensure` leaves behind when it fails.

It fails in two ways. When no watch opens, the policy is left without one, all that were ever opened for it are stopped,
and it can start afresh. When the rate is none, that is found out only after the watch was opened or found to be the
right one, and the policy keeps this watch. So a failure leaves no watch exactly if it is one of opening a watch
(`leavesNoWatch_iff`). The other policies keep what they have in both cases.

  §1 Outcomes — how `ensure` ends, by what the slot of the policy holds.
  §2 Failures — what each way to fail leaves.
-/

namespace Reaper

open Registry (Sound)

namespace Registry

variable {P : Bool → Prop} {r r' : Registry} {uid : String} {i : Nat} {target : WatchTarget} {rate : Binary64}
  {now : Duration} {σ : Type} {openWatch : WatchTarget → σ → Except WatchError Bool × σ} {world : σ}

/-! ## §1 Outcomes -/

/-- A rate that is taken is no reason to fail. -/
theorem finishEnsure_of_rate (r : Registry) (i : Nat) {q : Rat} (hq : Bucket.rate? rate = .ok q) (now : Duration)
    (outcome : EnsureOutcome) : (r.finishEnsure i rate now outcome).1 = .ok outcome := by
  unfold finishEnsure setRate
  rw [hq]
  cases (r.slotAt i).limiter <;> rfl

/-- A rate that is not taken changes nothing. -/
theorem finishEnsure_of_badRate (r : Registry) (i : Nat) {cause : LimiterError}
    (hbad : Bucket.rate? rate = .error cause) (now : Duration) (outcome : EnsureOutcome) :
    r.finishEnsure i rate now outcome = (.error (.limiter cause), r) := by
  unfold finishEnsure setRate
  rw [hbad]

/-- A policy whose slot holds no watch gets one, if the rate is taken and a watch opens. -/
theorem ensure_created (hslot : r.slot? uid = some i) (hnone : (r.slotAt i).watch = none) {q : Rat}
    (hq : Bucket.rate? rate = .ok q) {cancelled : Bool} (hopen : (openWatch target world).1 = .ok cancelled) :
    (r.ensure openWatch uid target rate now world).1.1 = .ok .created := by
  have hneed : r.need i target = .opening .created := by
    unfold need watchOf?
    rw [hnone]
    rfl
  unfold ensure
  rw [slotFor_of_slot? r hslot]
  dsimp only
  rw [hneed]
  dsimp only
  rcases hopened : openWatch target world with ⟨opened, world'⟩
  rw [hopened] at hopen
  obtain rfl : opened = .ok cancelled := hopen
  exact finishEnsure_of_rate _ i hq now .created

/-- A policy with a watch on the target keeps it, if the rate is taken. -/
theorem ensure_reused (hslot : r.slot? uid = some i) {w : Watch} (hwatch : r.watchOf? i = some w)
    (htarget : w.target = target) {q : Rat} (hq : Bucket.rate? rate = .ok q) :
    (r.ensure openWatch uid target rate now world).1.1 = .ok .reused := by
  have hneed : r.need i target = .nothing := by
    unfold need
    rw [hwatch]
    exact if_pos htarget
  unfold ensure
  rw [slotFor_of_slot? r hslot]
  dsimp only
  rw [hneed]
  exact finishEnsure_of_rate r i hq now .reused

/-- How `ensure` fails, and what is left then: the watch that there was is stopped and no other one opens, or the slot
holds a watch on the target and the rate is none. -/
theorem ensure_error_cases {e : ServeError}
    (hfail : (r.ensure openWatch uid target rate now world).1 = (.error e, r')) :
    let i := (r.slotFor uid).1
    let r₀ := (r.slotFor uid).2
    (∃ cause, e = .watch cause ∧ r' = (r₀.stopWatch i).countAttempt) ∨
    e = .limiter (.badRate rate) ∧ (r' = r₀ ∧ r₀.need i target = .nothing ∨
      ∃ cancelled, r' = (r₀.stopWatch i).countAttempt.addWatch i uid target cancelled) := by
  have hlast {r₁ : Registry} {j : Nat} {outcome : EnsureOutcome}
      (hfinish : r₁.finishEnsure j rate now outcome = (.error e, r')) : e = .limiter (.badRate rate) ∧ r' = r₁ := by
    rcases hq : Bucket.rate? rate with cause | q
    · rw [finishEnsure_of_badRate r₁ j hq, Prod.mk.injEq, Except.error.injEq] at hfinish
      obtain ⟨rfl, rfl⟩ := hfinish
      exact ⟨by rw [Bucket.eq_badRate_of_rate? hq], rfl⟩
    · have hok := finishEnsure_of_rate r₁ j hq now outcome
      rw [hfinish] at hok
      cases hok
  unfold ensure at hfail
  dsimp only at hfail ⊢
  split at hfail
  · rename_i hneed
    obtain ⟨he, hr⟩ := hlast hfail
    exact .inr ⟨he, .inl ⟨hr, hneed⟩⟩
  · split at hfail
    · rename_i cause _ _
      rw [Prod.mk.injEq, Except.error.injEq] at hfail
      exact .inl ⟨cause, hfail.1.symm, hfail.2.symm⟩
    · rename_i cancelled _ _
      obtain ⟨he, hr⟩ := hlast hfail
      exact .inr ⟨he, .inr ⟨cancelled, hr⟩⟩

/-! ## §2 Failures -/

/-- All policies but one keep their slots and what they hold. -/
def SparesOthers (uid : String) (r r' : Registry) : Prop :=
  ∀ k, k ≠ uid → r'.slot? k = r.slot? k ∧ r'.holding? k = r.holding? k

/-- A policy is left without a watch. All watches ever opened for it are stopped, the other policies keep what they
have, and the policy gets a watch as soon as it is asked for at a rate and one opens. -/
structure LeavesNoWatch (uid : String) (r r' : Registry) : Prop where
  watchless : r'.held? uid = none
  stopped : ∀ w, ¬ r'.IsLive uid w
  others : SparesOthers uid r r'
  restarts : ∀ {σ : Type} (openWatch : WatchTarget → σ → Except WatchError Bool × σ) (target : WatchTarget)
    (rate : Binary64) (now : Duration) (world : σ) {q : Rat} {cancelled : Bool}, Bucket.rate? rate = .ok q →
      (openWatch target world).1 = .ok cancelled →
      (r'.ensure openWatch uid target rate now world).1.1 = .ok .created

/-- A policy keeps a watch on a target, which is found again as soon as a rate is given. -/
structure KeepsWatch (uid : String) (target : WatchTarget) (r' : Registry) : Prop where
  held : r'.held? uid ≠ none
  target_eq : r'.target? uid = some target
  reuses : ∀ {σ : Type} (openWatch : WatchTarget → σ → Except WatchError Bool × σ) (rate : Binary64) (now : Duration)
    (world : σ) {q : Rat}, Bucket.rate? rate = .ok q →
      (r'.ensure openWatch uid target rate now world).1.1 = .ok .reused

theorem KeepsWatch.of_watchOf? (hslot : r.slot? uid = some i) {w : Watch} (hwatch : r.watchOf? i = some w)
    (htarget : w.target = target) : KeepsWatch uid target r where
  held hnone := by
    obtain ⟨k, hk, -⟩ := Option.bind_eq_some_iff.mp hwatch
    rw [held?_eq_some_iff.mpr ⟨i, hslot, hk⟩] at hnone
    cases hnone
  target_eq := by
    unfold target?
    rw [hslot, Option.bind_some, hwatch, Option.map_some, htarget]
  reuses _ _ _ _ _ hq := ensure_reused hslot hwatch htarget hq

/-- Work on the slot of a policy, after it has been made if there was none, spares the others. -/
theorem SparesOthers.of_slotFor (h : Sound P r) (hindex : ∀ k, r'.slot? k = (r.slotFor uid).2.slot? k)
    (hat : ∀ j, (r.slotFor uid).1 ≠ j → r'.holdingAt j = (r.slotFor uid).2.holdingAt j) : SparesOthers uid r r' := by
  intro k hk
  have hslot : (r.slotFor uid).2.slot? uid = some (r.slotFor uid).1 := by rw [slot?_slotFor, if_pos rfl]
  have hsame : r'.holding? k = (r.slotFor uid).2.holding? k :=
    holding?_of_ne (h.slotFor uid) hslot (fun k _ => hindex k) hat hk
  refine ⟨?_, ?_⟩
  · rw [hindex, slot?_slotFor, if_neg hk.symm]
  · rw [hsame, holding?_slotFor, if_neg hk.symm]

/-- What a failed `ensure` leaves, by the error. -/
theorem Sound.ensure_error (h : Sound P r) {e : ServeError}
    (hfail : (r.ensure openWatch uid target rate now world).1 = (.error e, r')) :
    SparesOthers uid r r' ∧
      ((∃ cause, e = .watch cause) ∧ LeavesNoWatch uid r r' ∨
        e = .limiter (.badRate rate) ∧ KeepsWatch uid target r') := by
  have h₀ := h.slotFor uid
  have hslot : (r.slotFor uid).2.slot? uid = some (r.slotFor uid).1 := by rw [slot?_slotFor, if_pos rfl]
  have hspares : _ → _ → SparesOthers uid r r' := .of_slotFor h
  have hcases := ensure_error_cases hfail
  generalize r.slotFor uid = made at h₀ hslot hspares hcases
  obtain ⟨i, r₀⟩ := made
  dsimp only at h₀ hslot hspares hcases
  -- the registry in which no watch has opened yet
  have hstopped := (h₀.stopWatch i).sameWatches (.countAttempt _)
  have hslot₁ : (r₀.stopWatch i).countAttempt.slot? uid = some i := (slot?_stopWatch ..).trans hslot
  have hindex (k : String) : (r₀.stopWatch i).countAttempt.slot? k = r₀.slot? k := slot?_stopWatch ..
  have hat (j : Nat) (hj : i ≠ j) : (r₀.stopWatch i).countAttempt.holdingAt j = r₀.holdingAt j :=
    (holdingAt_stopWatch h₀ i j).trans (if_neg hj)
  have hnone : ((r₀.stopWatch i).countAttempt.slotAt i).watch = none := r₀.watch_stopWatch i
  rcases hcases with ⟨cause, rfl, rfl⟩ | ⟨rfl, ⟨rfl, hneed⟩ | ⟨cancelled, rfl⟩⟩
  · have hothers := hspares hindex hat
    exact ⟨hothers, .inl ⟨⟨cause, rfl⟩,
      { watchless := by
          unfold held?
          rw [hslot₁, Option.bind_some, hnone]
        stopped := hstopped.not_isLive hslot₁ hnone
        others := hothers
        restarts := fun _ _ _ _ _ _ _ hq hopen => ensure_created hslot₁ hnone hq hopen }⟩⟩
  · refine ⟨hspares (fun _ => rfl) fun _ _ => rfl, .inr ⟨rfl, ?_⟩⟩
    unfold need at hneed
    split at hneed
    · rename_i w hw
      refine .of_watchOf? hslot hw ?_
      split at hneed
      · assumption
      · cases hneed
    · cases hneed
  · have hlt : i < (r₀.stopWatch i).countAttempt.slots.size := hstopped.lt_size hslot₁
    have hadded := holdingAt_addWatch hstopped hlt uid target cancelled
    refine ⟨hspares hindex fun j hj => ?_, .inr ⟨rfl, ?_⟩⟩
    · rw [hadded, if_neg hj, hat j hj]
    · have hwatch := congrArg Holding.watch (hadded i)
      rw [if_pos rfl] at hwatch
      exact .of_watchOf? hslot₁ hwatch rfl

end Registry

namespace RegistryRun

open Registry

/-- In every state that operations side by side can bring a registry to, and whatever policy, target and rate it is
asked for: a failed `ensure` leaves no watch exactly if it failed to open one. If not, the rate was none, and the policy
keeps a watch on the target. The other policies keep what they have in both cases. -/
theorem leavesNoWatch_iff (ops : List Operation) (us : List RegistryUse) {σ : Type}
    (openWatch : WatchTarget → σ → Except WatchError Bool × σ) (uid : String) (target : WatchTarget) (rate : Binary64)
    (now : Duration) (world : σ) (e : ServeError) :
    let r := ((begin ops).uses us).registry
    let left := (r.ensure openWatch uid target rate now world).1
    left.1 = .error e →
      (LeavesNoWatch uid r left.2 ↔ ∃ cause, e = .watch cause) ∧ SparesOthers uid r left.2 ∧
      ((¬ ∃ cause, e = .watch cause) → e = .limiter (.badRate rate) ∧ KeepsWatch uid target left.2) := by
  intro r left hfail
  have hsound : Sound (fun _ => True) r := ((consistent_begin ops).uses us).sound
  have hensure : left = (.error e, left.2) := by rw [← hfail]
  obtain ⟨hothers, ⟨hwatch, hleaves⟩ | ⟨rfl, hkeeps⟩⟩ := hsound.ensure_error hensure
  · exact ⟨iff_of_true hleaves hwatch, hothers, fun hnot => absurd hwatch hnot⟩
  · have hnot : ¬ ∃ cause, ServeError.limiter (.badRate rate) = .watch cause := nofun
    exact ⟨iff_of_false (fun hleaves => hkeeps.held hleaves.watchless) hnot, hothers, fun _ => ⟨rfl, hkeeps⟩⟩

def podTarget : WatchTarget := { (default : WatchTarget) with version := "v1", kind := "Pod", plural := "pods" }

/-- Opens every watch. -/
def openAlways (_ : WatchTarget) (world : Unit) : Except WatchError Bool × Unit := (.ok false, world)

/-- Opens no watch. -/
def openNever (target : WatchTarget) (world : Unit) : Except WatchError Bool × Unit :=
  (.error (.stopped target.plural), world)

/-- Two policies are served, and one of them has begun three deletions. -/
def pairUses : List RegistryUse :=
  [0, 0, 0, 1, 1, 1].map (fun task => .goOn { task, now := ⟨0⟩, watch := .ok false }) ++
    List.replicate 3 (.request 0 ⟨0⟩)

/-- The watch of one of two policies is to be replaced, and the new one does not open. The old one is stopped, and the
other policy keeps its own. -/
theorem leavesNoWatch_unopened :
    let ops : List Operation := [.ensure "a" default (.ofInt 5), .ensure "b" default (.ofInt 2)]
    let r := ((begin ops).uses pairUses).registry
    let left := (r.ensure openNever "a" podTarget (.ofInt 5) ⟨0⟩ ()).1
    r.held? "a" = some 0 ∧ r.held? "b" = some 1 ∧ left.1 = .error (.watch (.stopped "pods")) ∧
      LeavesNoWatch "a" r left.2 ∧ SparesOthers "a" r left.2 := by
  intro ops
  have hspec := leavesNoWatch_iff ops pairUses openNever "a" podTarget (.ofInt 5) ⟨0⟩ () (.watch (.stopped "pods"))
  have ha : ((begin ops).uses pairUses).registry.held? "a" = some 0 := by decide +kernel
  have hb : ((begin ops).uses pairUses).registry.held? "b" = some 1 := by decide +kernel
  have herror : (((begin ops).uses pairUses).registry.ensure openNever "a" podTarget (.ofInt 5) ⟨0⟩ ()).1.1 =
      .error (.watch (.stopped "pods")) := by decide +kernel
  -- the registry is not to be computed again where it is only named
  generalize ((begin ops).uses pairUses).registry = r at hspec ha hb herror ⊢
  obtain ⟨hiff, hothers, -⟩ := hspec herror
  exact ⟨ha, hb, herror, hiff.mpr ⟨_, rfl⟩, hothers⟩

/-- A new policy is to be served at the rate zero. That fails, but the watch that was opened before the rate was looked
at stays, and is found again when the rate is set right. -/
theorem not_leavesNoWatch_zeroRate :
    let r := ((begin []).uses []).registry
    let left := (r.ensure openAlways "a" podTarget (.finite 0) ⟨0⟩ ()).1
    left.1 = .error (.limiter (.badRate (.finite 0))) ∧ left.2.target? "a" = some podTarget ∧
      ¬ LeavesNoWatch "a" r left.2 ∧
      (left.2.ensure openAlways "a" podTarget (.finite 5) ⟨0⟩ ()).1.1 = .ok .reused := by
  intro r left
  have hheld : left.2.held? "a" = some 0 := by decide +kernel
  refine ⟨by decide +kernel, by decide +kernel, fun hleaves => ?_, by decide +kernel⟩
  exact nomatch hheld.symm.trans hleaves.watchless

end RegistryRun

end Reaper
