import Mathlib.Data.List.Nodup
import Reaper.Proofs.Pass.Changes
import Reaper.Proofs.Retry.Outcomes

/-!
What the replies make of a deletion.

If call number `n + 1` of deletion `i` is answered by `script i n`, then as long as the pass is not cancelled the stage of
every deletion is one that its own replies have brought it to (`followsScript_changes`): none of the others, no token and
no slot has a part in how it ends. How the deletions have ended is also listed, and the list tells the same as the stages
(`settlements_run`).

  §1 Scripts     — stages that follow from the replies.
  §2 Settlements — the list of the deletions that have ended.
-/

namespace Reaper

open Retry (Undecided Decides)

/-! ## §1 Scripts -/

/-- The stage is one to which a deletion can be brought by its replies. -/
def Stage.Follows (limit : Nat) (replies : Nat → Reply) (dispose : DeleteOutcome → Disposition) : Stage → Prop
  | fresh | awaitingToken _ | stranded => True
  | awaitingSlot n | granted n | calling n => ∃ answered, n = answered + 1 ∧ Undecided limit replies answered
  | pausing n _ => Undecided limit replies n
  | settled d => ∃ o, Decides limit replies o ∧ d = dispose o

namespace Pass

variable {plan : PassPlan} {script : Nat → Nat → Reply} {p q : Pass}

/-- The reply to call number `n + 1` is the one that the script has at place `n`. -/
def Given (script : Nat → Nat → Reply) (i n : Nat) (r : Reply) : Prop := ∃ answered, n = answered + 1 ∧ r = script i answered

/-- All deletions have been brought to their stages by their replies, unless the pass has been cancelled. -/
def FollowsScript (plan : PassPlan) (script : Nat → Nat → Reply) (p : Pass) : Prop :=
  p.cancelled = false → AtEach (fun i s => s.Follows plan.limit (script i) (disposition plan i)) p

theorem Change.not_cancelled {given : Nat → Nat → Reply → Prop} (hc : Change plan given p q)
    (h : q.cancelled = false) : p.cancelled = false := by
  cases hp : p.cancelled with
  | false => rfl
  | true =>
    have hq : q.cancelled = true := hc.moves.keeps (fun _ _ h hm => hm.cancelled h) hp
    cases h.symm.trans hq

/-- A deletion whose replies have left it undecided asks for a slot. -/
theorem followsScript_seekSlot (h : AtEach (fun i s => s.Follows plan.limit (script i) (disposition plan i)) p)
    {i n : Nat} (hn : Undecided plan.limit (script i) n) :
    AtEach (fun i s => s.Follows plan.limit (script i) (disposition plan i)) (p.seekSlot i (n + 1)) :=
  h.seekSlot ⟨n, rfl, hn⟩ ⟨n, rfl, hn⟩

theorem FollowsScript.change (hdry : plan.dryRun = false) (h : FollowsScript plan script p)
    (hc : Change plan (Given script) p q) : FollowsScript plan script q := by
  intro hq
  have hp : AtEach _ p := h (hc.not_cancelled hq)
  cases hc with
  | advance d => exact hp
  | cancel => cases hq
  | drop i s d _ _ hwhy =>
    rcases hwhy with ⟨hcancelled, -⟩ | ⟨hdryRun, -⟩
    · cases hcancelled.symm.trans hq
    · cases hdry.symm.trans hdryRun
  | token i s b _ _ _ _ _ =>
    exact followsScript_seekSlot (p := { p with bucket := b }) hp fun m hm => absurd hm (Nat.not_lt_zero m)
  | noToken i s s' b taking _ _ _ _ _ hnew =>
    rcases hnew with ⟨rfl, -⟩ | ⟨wake, rfl⟩
    · exact AtEach.put (p := { p with bucket := b }) hp trivial
    · exact AtEach.put (p := { p with bucket := b }) hp trivial
  | begin i n hs =>
    have hn : (Stage.granted n).Follows plan.limit (script i) (disposition plan i) := hp i _ hs
    exact AtEach.put hp hn
  | again i n wake hs _ => exact followsScript_seekSlot hp (hp i _ hs)
  | answer i n r s' hs hgiven hanswered hnew =>
    have hreleased := AtEach.releaseSlot hp fun _ _ hn => hn
    obtain ⟨answered, rfl, rfl⟩ := hgiven
    obtain ⟨m, hm, hundecided⟩ := hp i _ hs
    cases hm
    rcases hnew with ⟨rfl, -⟩ | ⟨wake, rfl⟩
    · exact hreleased.put trivial
    · exact hreleased.put (hundecided.succ hanswered)
  | answerLast i n r o hs hgiven hanswered =>
    have hreleased := AtEach.releaseSlot hp fun _ _ hn => hn
    obtain ⟨answered, rfl, rfl⟩ := hgiven
    obtain ⟨m, hm, hundecided⟩ := hp i _ hs
    cases hm
    exact hreleased.put ⟨o, ⟨_, hundecided, hanswered⟩, rfl⟩

theorem followsScript_changes (hdry : plan.dryRun = false) (h : FollowsScript plan script p)
    (hc : Changes plan (Given script) p q) : FollowsScript plan script q :=
  hc.keeps (fun _ _ h hc => h.change hdry hc) h

theorem followsScript_start (plan : PassPlan) (script : Nat → Nat → Reply) (bucket : Bucket) (now : Duration) :
    FollowsScript plan script (start plan bucket now) := by
  intro _ i s hs
  simp only [start, Array.getElem?_map, Option.map_eq_some_iff] at hs
  obtain ⟨-, -, rfl⟩ := hs
  trivial

/-! ## §2 Settlements -/

/-- The list of the deletions that have ended tells the same as their stages. -/
structure Ledger (p : Pass) : Prop where
  nodup : (p.settlements.map (·.1)).Nodup
  mem_iff : ∀ i d, (i, d) ∈ p.settlements ↔ p.stages[i]? = some (.settled d)

theorem Ledger.put (h : Ledger p) {i : Nat} {s s' : Stage} (hs : p.stages[i]? = some s) (hold : s.disposition? = none)
    (hnew : s'.disposition? = none) : Ledger (p.put i s') where
  nodup := h.nodup
  mem_iff j d := by
    rw [getElem?_put]
    refine (h.mem_iff j d).trans ?_
    split
    · subst i
      rw [hs]
      constructor <;> intro heq <;> cases heq
      · cases hold
      · cases hnew
    · rfl

theorem Ledger.settle (h : Ledger p) {i : Nat} {s : Stage} (hs : p.stages[i]? = some s) (hold : s.disposition? = none)
    (d : Disposition) : Ledger (p.settle i d) where
  nodup := by
    refine List.nodup_cons.mpr ⟨fun hmem => ?_, h.nodup⟩
    obtain ⟨⟨j, d'⟩, hd', rfl⟩ := List.mem_map.mp hmem
    cases hs.symm.trans ((h.mem_iff j d').mp hd')
    cases hold
  mem_iff j d' := by
    rw [show (p.settle i d).stages = (p.put i (.settled d)).stages from rfl, getElem?_put,
      show (p.settle i d).settlements = (i, d) :: p.settlements from rfl, List.mem_cons, h.mem_iff, Prod.mk.injEq]
    split
    · subst i
      rw [hs]
      have hopen : some s ≠ some (.settled d') := by
        intro heq
        cases heq
        cases hold
      simp [hopen, eq_comm]
    · rename_i hij
      simp [Ne.symm hij]

theorem Ledger.releaseSlot (h : Ledger p) {total : Nat} (hagree : SlotsAgree total p) : Ledger p.releaseSlot := by
  obtain ⟨-, hrel⟩ | ⟨j, rest, m, -, hj, hrel⟩ := hagree.releaseSlot_cases
  · rw [hrel]
    exact ⟨h.nodup, h.mem_iff⟩
  · rw [hrel]
    have hput : Ledger (p.put j (.granted m)) := h.put hj rfl rfl
    exact ⟨hput.nodup, hput.mem_iff⟩

theorem Ledger.seekSlot (h : Ledger p) {i : Nat} {s : Stage} (hs : p.stages[i]? = some s) (hold : s.disposition? = none)
    (n : Nat) : Ledger (p.seekSlot i n) := by
  obtain ⟨-, heq⟩ | ⟨-, heq⟩ := seekSlot_cases p i n
  · have hput : Ledger (p.put i (.calling n)) := h.put hs hold rfl
    rw [heq]
    exact ⟨hput.nodup, hput.mem_iff⟩
  · have hput : Ledger (p.put i (.awaitingSlot n)) := h.put hs hold rfl
    rw [heq]
    exact ⟨hput.nodup, hput.mem_iff⟩

theorem disposition?_of_isIdle {s : Stage} (h : s.isIdle = true) : s.disposition? = none := by
  cases s <;> simp_all [Stage.isIdle, Stage.disposition?]

theorem Ledger.move {total : Nat} (hagree : SlotsAgree total p) (h : Ledger p) (hm : Move plan p q) : Ledger q := by
  cases hm with
  | advance d => exact ⟨h.nodup, h.mem_iff⟩
  | cancel => exact ⟨h.nodup, h.mem_iff⟩
  | refill b => exact ⟨h.nodup, h.mem_iff⟩
  | put i s s' hs hg _ hnew => exact h.put hs (disposition?_of_isIdle (Stage.isIdle_of_goesOn hg)) hnew
  | settle i s d hs hidle => exact h.settle hs (disposition?_of_isIdle hidle) d
  | seekSlot i n s hs hg _ => exact h.seekSlot hs (disposition?_of_isIdle (Stage.isIdle_of_goesOn hg)) n
  | beginCall i n hs =>
    have hput : Ledger (p.put i (.calling n)) := h.put hs rfl rfl
    exact ⟨hput.nodup, hput.mem_iff⟩
  | answer i n s' hs _ hnew => exact (h.releaseSlot hagree).put (hagree.getElem?_releaseSlot hs) rfl hnew
  | answerLast i n d hs => exact (h.releaseSlot hagree).settle (hagree.getElem?_releaseSlot hs) rfl d

/-- In every running pass the list of the deletions that have ended tells the same as their stages. -/
theorem settlements_run (plan : PassPlan) (bucket : Bucket) (now : Duration) (events : List PassEvent) :
    Ledger ((start plan bucket now).run plan events) := by
  have hstart : Ledger (start plan bucket now) := by
    refine ⟨List.nodup_nil, fun i d => ?_⟩
    simp only [start, List.not_mem_nil, Array.getElem?_map, false_iff]
    cases plan.deletions[i]? <;> simp
  exact ((run_moves _ events).keeps (P := fun p => SlotsAgree plan.slots p ∧ Ledger p)
    (fun _ _ h hm => ⟨h.1.move hm, h.2.move h.1 hm⟩) ⟨slotsAgree_start plan bucket now, hstart⟩).2

/-- When all deletions have ended, the list has the number of each of them once. -/
theorem Ledger.perm_range (h : Ledger p) (hsettled : p.isSettled = true) :
    (p.settlements.map (·.1)).Perm (List.range p.stages.size) := by
  refine (List.perm_ext_iff_of_nodup h.nodup List.nodup_range).mpr fun i => ?_
  rw [List.mem_map, List.mem_range]
  constructor
  · rintro ⟨⟨j, d⟩, hmem, rfl⟩
    exact (Array.getElem?_eq_some_iff.mp ((h.mem_iff j d).mp hmem)).1
  · intro hi
    obtain ⟨d, hd⟩ := exists_settled hsettled hi
    exact ⟨(i, d), (h.mem_iff i d).mpr hd, rfl⟩

end Pass

end Reaper
