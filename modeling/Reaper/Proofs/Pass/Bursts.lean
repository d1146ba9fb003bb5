import Reaper.Proofs.Pass.FirstCalls

/-!
Bursts of first calls.

A pass can take the token of every deletion while its slots are held by calls that do not end. When they end, at one
moment, the deletions that waited begin their first calls at that moment, however many tokens there would be for them
then. So the number of deletions beyond the slots is a burst that a pass can bring about (`exists_burst`).

  §1 Orderly passes — what a pass looks like on the way to a burst.
  §2 Filling        — one more deletion takes its token, and a slot if one is free.
  §3 Draining       — one more deletion begins its first call, at the same moment.
-/

namespace Reaper

/-! ## §1 Orderly passes -/

/-- The deletion is new, at its first call, waiting for the slot of it, or at its end. -/
def Stage.isOrderly : Stage → Bool
  | fresh | settled _ => true
  | awaitingSlot n | calling n => n == 1
  | _ => false

namespace Pass

variable {plan : PassPlan} {bucket : Bucket} {now : Duration} {p : Pass}

/-- A state of a pass that was not cancelled, in which no deletion has been called twice. -/
structure Orderly (plan : PassPlan) (bucket : Bucket) (now : Duration) (p : Pass) : Prop where
  ran : ∃ events, p = (start plan bucket now).run plan events
  stages : AtEach (fun _ s => s.isOrderly = true) p
  live : p.cancelled = false

theorem Orderly.books (h : Orderly plan bucket now p) (hround : plan.round = .exact) (hb : bucket.Valid) :
    Books plan bucket.rate p := by
  obtain ⟨events, rfl⟩ := h.ran
  exact books_run hround hb now events

theorem orderly_start (plan : PassPlan) (bucket : Bucket) (now : Duration) :
    Orderly plan bucket now (start plan bucket now) where
  ran := ⟨[], rfl⟩
  stages i s hs := by
    simp only [start, Array.getElem?_map, Option.map_eq_some_iff] at hs
    obtain ⟨-, -, rfl⟩ := hs
    rfl
  live := rfl

theorem Orderly.after {q : Pass} (h : Orderly plan bucket now p) {events : List PassEvent} (hq : p.run plan events = q)
    (hstages : AtEach (fun _ s => s.isOrderly = true) q) (hlive : q.cancelled = false) : Orderly plan bucket now q := by
  obtain ⟨before, rfl⟩ := h.ran
  exact ⟨⟨before ++ events, by rw [run_append, hq]⟩, hstages, hlive⟩

/-! ## §2 Filling -/

/-- A new deletion gets its token when it is resumed late enough. -/
theorem Orderly.exists_seekSlot (hround : plan.round = .exact) (hb : bucket.Valid) (hdry : plan.dryRun = false)
    (h : Orderly plan bucket now p) {k : Nat} (hk : p.stages[k]? = some .fresh) :
    ∃ later b, p.run plan [.advance later, .resume k] =
      { p with now := ⟨p.now.nanos + later.nanos⟩, bucket := b }.seekSlot k 1 := by
  obtain ⟨later, hgranted⟩ := (h.books hround hb).valid.exists_granted p.now
  rcases hrequest : p.bucket.request .exact ⟨p.now.nanos + later.nanos⟩ with ⟨b, taking⟩
  rw [hrequest] at hgranted
  obtain rfl : taking = .granted := hgranted
  refine ⟨later, b, ?_⟩
  simp [run, step, resume, seekToken, attempt, RetryState.start, hk, h.live, hdry, hround, hrequest]

/-- On the way to a burst the deletions before the `k`th have taken their tokens: they make their first calls, or wait
for the slots that those hold. -/
structure Filled (plan : PassPlan) (bucket : Bucket) (now : Duration) (k : Nat) (p : Pass) : Prop where
  orderly : Orderly plan bucket now p
  fresh : ∀ j, k ≤ j → j < plan.deletions.size → p.stages[j]? = some .fresh
  tokens : p.firsts.length + p.queue.length = k
  slots : p.firsts.length + p.free = plan.slots

theorem Filled.next (hround : plan.round = .exact) (hb : bucket.Valid) (hdry : plan.dryRun = false) {k : Nat}
    (hk : k < plan.deletions.size) (h : Filled plan bucket now k p) : ∃ q, Filled plan bucket now (k + 1) q := by
  have hfresh := h.fresh k (Nat.le_refl k) hk
  obtain ⟨later, b, hrun⟩ := h.orderly.exists_seekSlot hround hb hdry hfresh
  let asked : Pass := { p with now := ⟨p.now.nanos + later.nanos⟩, bucket := b }
  have hlive : (asked.seekSlot k 1).cancelled = false := (seekSlot_sameClock asked k 1).2.trans h.orderly.live
  have hothers (s : Stage) : ∀ j, k + 1 ≤ j → j < plan.deletions.size → (asked.put k s).stages[j]? = some .fresh := by
    intro j hj hsize
    rw [getElem?_put, if_neg (by omega)]
    exact h.fresh j (by omega) hsize
  refine ⟨asked.seekSlot k 1, ?_⟩
  have htokens := h.tokens
  have hslots := h.slots
  obtain ⟨hfree, heq⟩ | ⟨hfree, heq⟩ := seekSlot_cases asked k 1
  · have hnone : 1 = p.callsOf k + 1 := by
      have hcount : p.callsOf k = 0 := (h.orderly.books hround hb).counted k _ hfresh
      omega
    have hfirsts : (asked.seekSlot k 1).firsts.length = p.firsts.length + 1 := by
      rw [heq, firsts_beginCall (p := { asked with free := asked.free - 1 }) hnone]
      simp [asked, firsts, Nat.add_comm]
    refine ⟨h.orderly.after hrun ?_ hlive, ?_, ?_, ?_⟩
    · rw [heq]
      exact AtEach.put (p := asked) h.orderly.stages rfl
    · rw [heq]
      exact hothers _
    · rw [hfirsts, heq]
      show p.firsts.length + 1 + p.queue.length = k + 1
      omega
    · rw [hfirsts, heq]
      show p.firsts.length + 1 + (p.free - 1) = plan.slots
      have : 0 < p.free := hfree
      omega
  · refine ⟨h.orderly.after hrun ?_ hlive, ?_, ?_, ?_⟩
    · rw [heq]
      exact AtEach.put (p := asked) h.orderly.stages rfl
    · rw [heq]
      exact hothers _
    · rw [heq]
      show p.firsts.length + (p.queue ++ [k]).length = k + 1
      rw [List.length_append]
      exact congrArg (· + 1) htokens
    · rw [heq]
      exact hslots

theorem exists_filled (hround : plan.round = .exact) (hb : bucket.Valid) (hdry : plan.dryRun = false) (now : Duration) :
    ∀ k ≤ plan.deletions.size, ∃ p, Filled plan bucket now k p := by
  intro k
  induction k with
  | zero =>
    intro _
    refine ⟨start plan bucket now, orderly_start plan bucket now, fun j _ hj => ?_, rfl, Nat.zero_add _⟩
    simp [start, hj]
  | succ k ih =>
    intro hk
    obtain ⟨p, hp⟩ := ih (by omega)
    exact hp.next hround hb hdry (by omega)

/-! ## §3 Draining -/

/-- While somebody waits in an orderly pass, a first call holds a slot. -/
theorem Orderly.exists_calling (hround : plan.round = .exact) (hb : bucket.Valid) (hslots : 0 < plan.slots)
    (h : Orderly plan bucket now p) (hq : p.queue ≠ []) : ∃ i : Nat, p.stages[i]? = some (.calling 1) := by
  have hagree := (h.books hround hb).agree
  have hheld : 0 < p.stages.countP Stage.holdsSlot := by
    have hfree := hagree.free_eq_zero hq
    have htotal := hagree.slots
    omega
  obtain ⟨s, hs, hholds⟩ := Array.countP_pos_iff.mp hheld
  obtain ⟨i, hi⟩ := Array.mem_iff_getElem?.mp hs
  have horderly := h.stages i s hi
  cases s <;> simp_all [Stage.holdsSlot, Stage.isOrderly]
  exact ⟨i, hi⟩

/-- A call that succeeds lets the first in the queue begin its own, at the same moment. -/
theorem Orderly.drain (hround : plan.round = .exact) (hb : bucket.Valid) (hslots : 0 < plan.slots)
    (h : Orderly plan bucket now p) {j : Nat} {rest : List Nat} (hq : p.queue = j :: rest) :
    ∃ q, Orderly plan bucket now q ∧ q.now = p.now ∧ q.queue = rest ∧ q.firsts = (p.now, j) :: p.firsts := by
  have hbooks := h.books hround hb
  obtain ⟨i, hi⟩ := h.exists_calling hround hb hslots (by simp [hq])
  obtain ⟨hnil, -⟩ | ⟨j', rest', m, hq', hj, hrelease⟩ := hbooks.agree.releaseSlot_cases
  · simp [hq] at hnil
  obtain ⟨rfl, rfl⟩ := List.cons.inj (hq.symm.trans hq')
  obtain rfl : m = 1 := by simpa [Stage.isOrderly] using h.stages j _ hj
  have hij : i ≠ j := by
    rintro rfl
    simp [hi] at hj
  -- the pass when the call has been answered, before the first in the queue is resumed
  let answered := p.releaseSlot.settle i (disposition plan i (.deleted 1))
  have hreply : p.reply plan i (.ok ()) = answered := by
    unfold reply
    rw [hi]
    rfl
  have hgranted : answered.stages[j]? = some (.granted 1) := by
    simp [answered, hrelease, settle, hij, hj]
  have hrun : p.run plan [.reply i (.ok ()), .resume j] = answered.beginCall j 1 := by
    show (p.reply plan i (.ok ())).resume plan j = _
    rw [hreply, resume_granted hgranted]
  have hcalls : answered.callsOf j = 0 := by
    have hcount : 1 = p.callsOf j + 1 := hbooks.counted j _ hj
    have hsame : answered.callsOf j = p.callsOf j := by simp [answered, settle, Pass.put, callsOf]
    omega
  have hnow : p.releaseSlot.now = p.now := (releaseSlot_sameClock p).1
  refine ⟨answered.beginCall j 1, h.after hrun ?_ ?_, hnow, ?_, ?_⟩
  · intro k s hs
    rw [show (answered.beginCall j 1).stages = (answered.put j (.calling 1)).stages from rfl, getElem?_put] at hs
    split at hs
    · obtain ⟨-, -, rfl⟩ := Option.map_eq_some_iff.mp hs
      rfl
    · rename_i hjk
      rw [show answered.stages = (p.releaseSlot.put i _).stages from rfl, getElem?_put] at hs
      split at hs
      · obtain ⟨-, -, rfl⟩ := Option.map_eq_some_iff.mp hs
        rfl
      · refine h.stages k s ?_
        simpa [hrelease, hjk] using hs
  · exact (releaseSlot_sameClock p).2.trans h.live
  · show p.releaseSlot.queue = rest
    rw [hrelease]
  · rw [firsts_beginCall (show 1 = answered.callsOf j + 1 by omega)]
    simp [answered, settle, Pass.put, firsts, hnow]

theorem Orderly.exists_drained (hround : plan.round = .exact) (hb : bucket.Valid) (hslots : 0 < plan.slots)
    (h : Orderly plan bucket now p) :
    ∃ q, Orderly plan bucket now q ∧ q.now = p.now ∧ p.queue.length ≤ q.firstsWithin p.now p.now := by
  suffices ∀ (waiting : List Nat) (p : Pass), Orderly plan bucket now p → p.queue = waiting →
      ∃ q, Orderly plan bucket now q ∧ q.now = p.now ∧
        p.firstsWithin p.now p.now + waiting.length ≤ q.firstsWithin p.now p.now by
    obtain ⟨q, hq, hnow, hle⟩ := this p.queue p h rfl
    exact ⟨q, hq, hnow, by omega⟩
  intro waiting
  induction waiting with
  | nil => exact fun p h _ => ⟨p, h, rfl, Nat.le_refl _⟩
  | cons j rest ih =>
    intro p h hqueue
    obtain ⟨next, hnext, hnow, hrest, hfirsts⟩ := h.drain hround hb hslots hqueue
    obtain ⟨q, hq, hnow', hle⟩ := ih next hnext hrest
    refine ⟨q, hq, hnow'.trans hnow, ?_⟩
    have hone : next.firstsWithin p.now p.now = p.firstsWithin p.now p.now + 1 := by
      have hhere : p.now ≤ p.now := Nat.le_refl _
      simp [firstsWithin, hfirsts, hhere]
    rw [hnow, hone] at hle
    rw [List.length_cons]
    omega

/-- The deletions beyond the slots can begin their first calls at one moment. -/
theorem exists_burst (hround : plan.round = .exact) (hb : bucket.Valid) (hdry : plan.dryRun = false)
    (hslots : 0 < plan.slots) (now : Duration) :
    ∃ events moment, plan.deletions.size ≤
      plan.slots + ((start plan bucket now).run plan events).firstsWithin moment moment := by
  obtain ⟨p, hp⟩ := exists_filled hround hb hdry now plan.deletions.size (Nat.le_refl _)
  obtain ⟨q, hq, hnow, hle⟩ := hp.orderly.exists_drained hround hb hslots
  obtain ⟨events, rfl⟩ := hq.ran
  have htokens := hp.tokens
  have hfilled := hp.slots
  exact ⟨events, p.now, by omega⟩

end Pass

end Reaper
