import Reaper.Proofs.Retry.Outcomes

/-!
The course of a deletion that is tried until it is decided.

A call is the last one if its reply is not worth another try, if it is the last try, or if the pause after it has no
duration (`Stops`). Until then a pause follows on every reply, and the next call on the pause (`runFrom_next`). A
cancellation leaves of this course what comes before it (`runFrom_interrupted`).

  §1 Replies — what replies make of a deletion.
  §2 Times   — when calls are made and answered.
  §3 Steps   — one call and what comes after it.
  §4 Courses — the calls from the first to the last.
-/

namespace Reaper

/-! ## §1 Replies -/

/-- The call is worth another try. -/
def Reply.isRetryable : Reply → Bool
  | .ok () => false
  | .error f => f.classify = .retryable

/-- How a deletion ends if call number `n` is its last one and is answered so. -/
def DeleteOutcome.ofReply (n : Nat) : Reply → DeleteOutcome
  | .ok () => .deleted n
  | .error f =>
    match f.classify with
    | .alreadyGone => .alreadyGone n
    | .fatal => .failedForGood n f
    | .retryable => .retriesExhausted n f

theorem DeleteOutcome.attempts_ofReply (n : Nat) (r : Reply) : (ofReply n r).attempts = n := by
  unfold ofReply
  split
  · rfl
  · split <;> rfl

/-- A reply leads to a pause or to the end. -/
theorem RetryState.answered_eq (limit n : Nat) (r : Reply) :
    answered limit n r = if Reply.isRetryable r = true ∧ n < limit then .pausing n else .done (.ofReply n r) := by
  unfold answered Reply.isRetryable DeleteOutcome.ofReply
  cases r with
  | ok => rfl
  | error f =>
    cases hclass : f.classify with
    | retryable =>
      rcases Nat.lt_or_ge n limit with hlt | hge
      · simp [hclass, hlt, Nat.not_le.mpr hlt]
      · simp [hclass, hge, Nat.not_lt.mpr hge]
    | _ => simp [hclass]

/-- What is not found is gone, whatever else is said. -/
theorem Fault.classify_notFound (status message reason : String) :
    (Fault.api status message reason 404).classify = .alreadyGone := rfl

namespace Retry

section

variable (limit : Nat) (pauses : Nat → Option Duration) (replies : Nat → Reply) (latency : Nat → Duration) (now : Millis)

/-! ## §2 Times -/

/-- When call number `n + 1` is made if the deletion comes to it: after the calls before and the pauses between them. -/
def callTime : Nat → Millis
  | 0 => now
  | n + 1 => ((callTime n).after (latency n)).after ((pauses n).getD .zero)

/-- When call number `n + 1` is answered. -/
def answerTime (n : Nat) : Millis := (callTime pauses latency now n).after (latency n)

/-- The times of the first `n` calls. -/
def callTimes (n : Nat) : List Millis := (List.range n).map (callTime pauses latency now)

/-- The deletion comes to call number `n + 1`: so far every reply is worth another try, there is another try, and the pause
before it has a duration. -/
def GoesOn (n : Nat) : Prop :=
  ∀ m < n, Reply.isRetryable (replies m) = true ∧ m + 1 < limit ∧ (pauses m).isSome = true

/-- The deletion comes to call number `n + 1` and makes no other call after it. -/
structure Stops (n : Nat) : Prop where
  goesOn : GoesOn limit pauses replies n
  last : Reply.isRetryable (replies n) = true → n + 1 < limit → pauses n = none

/-- How the deletion ends with call number `n + 1`: in no way if it should be tried again. -/
def outcomeAt (n : Nat) : Option DeleteOutcome :=
  if Reply.isRetryable (replies n) = true ∧ n + 1 < limit then none else some (.ofReply (n + 1) (replies n))

/-- What a run leaves that ends with call number `n + 1`. -/
def courseTo (n : Nat) : Trace :=
  ⟨callTimes pauses latency now (n + 1), answerTime pauses latency now n, outcomeAt limit replies n⟩

/-- What a run leaves that is cancelled at `c` before call number `n + 1`: at once if that is the first one, else when the
call before has been answered. -/
def courseCut (c : Millis) (n : Nat) : Trace :=
  { calls := callTimes pauses latency now n
    finish :=
      match n with
      | 0 => now
      | m + 1 => max c (answerTime pauses latency now m)
    outcome := some (.cancelled n) }

end

variable {limit : Nat} {pauses : Nat → Option Duration} {replies : Nat → Reply} {latency : Nat → Duration} {now : Millis}
  {cancelAt : Option Millis} {c : Millis} {n : Nat}

theorem cons_reverse_callTimes (n : Nat) :
    callTime pauses latency now n :: (callTimes pauses latency now n).reverse =
      (callTimes pauses latency now (n + 1)).reverse := by
  simp [callTimes, List.range_succ]

theorem GoesOn.mono {m : Nat} (h : GoesOn limit pauses replies n) (hm : m ≤ n) : GoesOn limit pauses replies m :=
  fun k hk => h k (Nat.lt_of_lt_of_le hk hm)

/-- Sooner or later a call is the last one. -/
theorem exists_stops (hlimit : 0 < limit) (pauses : Nat → Option Duration) (replies : Nat → Reply) :
    ∃ n < limit, Stops limit pauses replies n := by
  have hgo (n : Nat) : GoesOn limit pauses replies n ∨ ∃ m < limit, Stops limit pauses replies m := by
    induction n with
    | zero => exact .inl fun m hm => absurd hm (Nat.not_lt_zero m)
    | succ n ih =>
      rcases ih with hgoes | hstops
      · by_cases hmore : Reply.isRetryable (replies n) = true ∧ n + 1 < limit ∧ (pauses n).isSome = true
        · refine .inl fun m hm => ?_
          rcases Nat.lt_succ_iff_lt_or_eq.mp hm with hm | rfl
          · exact hgoes m hm
          · exact hmore
        · refine .inr ⟨n, ?_, hgoes, fun hretry hlt => ?_⟩
          · cases n with
            | zero => exact hlimit
            | succ n => exact (hgoes n (Nat.lt_succ_self n)).2.1
          · exact Option.not_isSome_iff_eq_none.mp fun hpause => hmore ⟨hretry, hlt, hpause⟩
      · exact .inr hstops
  rcases hgo limit with hgoes | hstops
  · obtain ⟨-, hlt, -⟩ := hgoes (limit - 1) (by omega)
    omega
  · exact hstops

theorem Stops.unique {m : Nat} (h : Stops limit pauses replies n) (h' : Stops limit pauses replies m) : n = m := by
  have hle {n m : Nat} (h : Stops limit pauses replies n) (h' : Stops limit pauses replies m) : m ≤ n := by
    refine Nat.not_lt.mp fun hlt => ?_
    obtain ⟨hretry, hmore, hpause⟩ := h'.goesOn n hlt
    rw [h.last hretry hmore] at hpause
    cases hpause
  exact Nat.le_antisymm (hle h' h) (hle h h')

/-! ## §3 Steps -/

/-- The last call. -/
theorem runFrom_last (h : Stops limit pauses replies n) (left : Nat)
    (huncut : cancelledBy cancelAt (callTime pauses latency now n) = false) :
    runFrom limit pauses replies latency cancelAt (left + 1) n (callTime pauses latency now n)
        (callTimes pauses latency now n).reverse = courseTo limit pauses replies latency now n := by
  unfold runFrom courseTo outcomeAt
  simp only [huncut, RetryState.start, Bool.false_eq_true, if_false, RetryState.answered_eq, cons_reverse_callTimes,
    List.reverse_reverse]
  by_cases hmore : Reply.isRetryable (replies n) = true ∧ n + 1 < limit
  · rw [if_pos hmore, if_pos hmore, h.last hmore.1 hmore.2]
    rfl
  · rw [if_neg hmore, if_neg hmore]
    rfl

/-- A call after which there is another one. -/
theorem runFrom_next (h : GoesOn limit pauses replies (n + 1)) (left : Nat)
    (huncut : cancelledBy cancelAt (callTime pauses latency now n) = false)
    (hlater : cancelledBy cancelAt (callTime pauses latency now (n + 1)) = false) :
    runFrom limit pauses replies latency cancelAt (left + 1) n (callTime pauses latency now n)
        (callTimes pauses latency now n).reverse =
      runFrom limit pauses replies latency cancelAt left (n + 1) (callTime pauses latency now (n + 1))
        (callTimes pauses latency now (n + 1)).reverse := by
  obtain ⟨hretry, hlt, hpause⟩ := h n (Nat.lt_succ_self n)
  obtain ⟨pause, hpause⟩ := Option.isSome_iff_exists.mp hpause
  have hwake : ((callTime pauses latency now n).after (latency n)).after pause = callTime pauses latency now (n + 1) := by
    simp [callTime, hpause]
  rw [runFrom]
  simp only [huncut, RetryState.start, Bool.false_eq_true, if_false, RetryState.answered_eq, hretry, hlt, and_self,
    if_true, hpause, hwake, cons_reverse_callTimes]
  cases cancelAt with
  | none => rfl
  | some c =>
    have hnot : ¬ c ≤ callTime pauses latency now (n + 1) := by simpa [cancelledBy] using hlater
    exact if_neg hnot

/-- A call after which there would be another one, had the deletion not been cancelled by then. -/
theorem runFrom_cut (h : GoesOn limit pauses replies (n + 1)) (left : Nat)
    (huncut : callTime pauses latency now n < c) (hlater : c ≤ callTime pauses latency now (n + 1)) :
    runFrom limit pauses replies latency (some c) (left + 1) n (callTime pauses latency now n)
        (callTimes pauses latency now n).reverse = courseCut pauses latency now c (n + 1) := by
  obtain ⟨hretry, hlt, hpause⟩ := h n (Nat.lt_succ_self n)
  obtain ⟨pause, hpause⟩ := Option.isSome_iff_exists.mp hpause
  have hnot : cancelledBy (some c) (callTime pauses latency now n) = false := by simpa [cancelledBy] using huncut
  have hwake : ((callTime pauses latency now n).after (latency n)).after pause = callTime pauses latency now (n + 1) := by
    simp [callTime, hpause]
  rw [runFrom]
  simp only [hnot, RetryState.start, Bool.false_eq_true, if_false, RetryState.answered_eq, hretry, hlt, and_self,
    if_true, hpause, hwake, cons_reverse_callTimes, hlater, List.reverse_reverse]
  rfl

/-! ## §4 Courses -/

/-- A deletion that is not cancelled before its last call makes all its calls. -/
theorem runFrom_uninterrupted (h : Stops limit pauses replies n)
    (huncut : ∀ m ≤ n, cancelledBy cancelAt (callTime pauses latency now m) = false) {left made : Nat} (hmade : made ≤ n)
    (hleft : n < left + made) :
    runFrom limit pauses replies latency cancelAt left made (callTime pauses latency now made)
        (callTimes pauses latency now made).reverse = courseTo limit pauses replies latency now n := by
  induction left generalizing made with
  | zero => omega
  | succ left ih =>
    rcases Nat.lt_or_eq_of_le hmade with hlt | rfl
    · rw [runFrom_next (h.goesOn.mono hlt) left (huncut made hmade) (huncut (made + 1) hlt)]
      exact ih hlt (by omega)
    · exact runFrom_last h left (huncut made (Nat.le_refl made))

/-- A deletion that is cancelled before one of its calls, but not before the first, makes the calls that come before. -/
theorem runFrom_interrupted (h : GoesOn limit pauses replies (n + 1))
    (huncut : ∀ m ≤ n, callTime pauses latency now m < c) (hcut : c ≤ callTime pauses latency now (n + 1))
    {left made : Nat} (hmade : made ≤ n) (hleft : n < left + made) :
    runFrom limit pauses replies latency (some c) left made (callTime pauses latency now made)
        (callTimes pauses latency now made).reverse = courseCut pauses latency now c (n + 1) := by
  have hnot (m : Nat) (hm : m ≤ n) : cancelledBy (some c) (callTime pauses latency now m) = false := by
    simpa [cancelledBy] using huncut m hm
  induction left generalizing made with
  | zero => omega
  | succ left ih =>
    rcases Nat.lt_or_eq_of_le hmade with hlt | rfl
    · rw [runFrom_next (h.mono (Nat.succ_le_succ hmade)) left (hnot made hmade) (hnot (made + 1) hlt)]
      exact ih hlt (by omega)
    · exact runFrom_cut h left (huncut made (Nat.le_refl made)) hcut

variable {p : RetryPolicy}

/-- A run that is not cancelled before its last call. -/
theorem runWith_uninterrupted (h : Stops p.limit pauses replies n) (hn : n < p.limit)
    (huncut : ∀ m ≤ n, cancelledBy cancelAt (callTime pauses latency now m) = false) :
    runWith p pauses replies latency cancelAt now = courseTo p.limit pauses replies latency now n :=
  runFrom_uninterrupted h huncut (Nat.zero_le n) (by omega)

/-- A run that is cancelled before one of its calls. -/
theorem runWith_interrupted (h : GoesOn p.limit pauses replies n)
    (huncut : ∀ m < n, callTime pauses latency now m < c) (hcut : c ≤ callTime pauses latency now n) :
    runWith p pauses replies latency (some c) now = courseCut pauses latency now c n := by
  cases n with
  | zero =>
    have hcancelled : cancelledBy (some c) now = true := by simpa [cancelledBy, callTime] using hcut
    unfold runWith runFrom
    simp only [hcancelled, RetryState.start, if_true]
    rfl
  | succ n =>
    have hlt : n + 1 < p.limit := (h n (Nat.lt_succ_self n)).2.1
    exact runFrom_interrupted h (fun m hm => huncut m (Nat.lt_succ_of_le hm)) hcut (Nat.zero_le n) (by omega)

/-- Every run takes its course to the last call, or is cut before one of the calls on it. -/
theorem exists_course (p : RetryPolicy) (pauses : Nat → Option Duration) (replies : Nat → Reply)
    (latency : Nat → Duration) (cancelAt : Option Millis) (now : Millis) :
    ∃ n < p.limit, Stops p.limit pauses replies n ∧
      (runWith p pauses replies latency cancelAt now = courseTo p.limit pauses replies latency now n ∨
        ∃ m ≤ n, ∃ c, runWith p pauses replies latency cancelAt now = courseCut pauses latency now c m) := by
  obtain ⟨n, hn, hstops⟩ := exists_stops p.limit_pos pauses replies
  refine ⟨n, hn, hstops, ?_⟩
  cases cancelAt with
  | none => exact .inl (runWith_uninterrupted hstops hn fun _ _ => rfl)
  | some c =>
    have hgo (k : Nat) (hk : k ≤ n + 1) : (∀ m < k, callTime pauses latency now m < c) ∨
        ∃ m ≤ n, ∃ c', runWith p pauses replies latency (some c) now = courseCut pauses latency now c' m := by
      induction k with
      | zero => exact .inl fun m hm => absurd hm (Nat.not_lt_zero m)
      | succ k ih =>
        rcases ih (by omega) with hbefore | hcut
        · rcases Nat.lt_or_ge (callTime pauses latency now k) c with hlt | hge
          · refine .inl fun m hm => ?_
            rcases Nat.lt_succ_iff_lt_or_eq.mp hm with hm | rfl
            · exact hbefore m hm
            · exact hlt
          · exact .inr ⟨k, by omega, c, runWith_interrupted (hstops.goesOn.mono (by omega)) hbefore hge⟩
        · exact .inr hcut
    rcases hgo (n + 1) (Nat.le_refl _) with hbefore | hcut
    · refine .inl (runWith_uninterrupted hstops hn fun m hm => ?_)
      simpa [cancelledBy] using hbefore m (Nat.lt_succ_of_le hm)
    · exact .inr hcut

theorem outcomeAt_eq_none_iff : outcomeAt limit replies n = none ↔
    Reply.isRetryable (replies n) = true ∧ n + 1 < limit := by
  unfold outcomeAt
  by_cases hmore : Reply.isRetryable (replies n) = true ∧ n + 1 < limit
  · simp [hmore]
  · rw [if_neg hmore]
    exact ⟨nofun, fun h => absurd h hmore⟩

theorem length_callTimes (n : Nat) : (callTimes pauses latency now n).length = n := by
  simp [callTimes]

/-- However a run ends, it makes the calls of its course in turn, no more than there are tries, and counts them right. -/
theorem calls_runWith (p : RetryPolicy) (pauses : Nat → Option Duration) (replies : Nat → Reply)
    (latency : Nat → Duration) (cancelAt : Option Millis) (now : Millis) :
    let trace := runWith p pauses replies latency cancelAt now
    trace.calls.length ≤ p.limit ∧ trace.calls = callTimes pauses latency now trace.calls.length ∧
      ∀ o, trace.outcome = some o → o.attempts = trace.calls.length := by
  intro trace
  obtain ⟨k, hk, -, hwhole | ⟨m, hm, c, hcut⟩⟩ := exists_course p pauses replies latency cancelAt now
  · have htrace : trace = courseTo p.limit pauses replies latency now k := hwhole
    have hlength : trace.calls.length = k + 1 := by
      rw [htrace]
      exact length_callTimes (k + 1)
    rw [hlength, htrace]
    refine ⟨hk, rfl, fun o ho => ?_⟩
    have hattempts : o = .ofReply (k + 1) (replies k) := by
      simp only [courseTo, outcomeAt] at ho
      split at ho
      · cases ho
      · exact (Option.some.inj ho).symm
    rw [hattempts, DeleteOutcome.attempts_ofReply]
  · have htrace : trace = courseCut pauses latency now c m := hcut
    have hlength : trace.calls.length = m := by
      rw [htrace]
      exact length_callTimes m
    rw [hlength, htrace]
    refine ⟨by omega, rfl, fun o ho => ?_⟩
    cases ho
    rfl

/-- An uncancelled run that stops has no outcome exactly when a pause that it comes to has no duration. -/
theorem Stops.outcomeAt_eq_none_iff (h : Stops limit pauses replies n) : outcomeAt limit replies n = none ↔
    ∃ m, m + 1 < limit ∧ (∀ j ≤ m, Reply.isRetryable (replies j) = true) ∧ pauses m = none := by
  constructor
  · intro hnone
    obtain ⟨hretry, hlt⟩ := Retry.outcomeAt_eq_none_iff.mp hnone
    refine ⟨n, hlt, fun j hj => ?_, h.last hretry hlt⟩
    rcases Nat.lt_or_eq_of_le hj with hj | rfl
    · exact (h.goesOn j hj).1
    · exact hretry
  · rintro ⟨m, hlt, hretry, hpause⟩
    have hle : n ≤ m := by
      refine Nat.not_lt.mp fun hm => ?_
      have hsome := (h.goesOn m hm).2.2
      rw [hpause] at hsome
      cases hsome
    exact Retry.outcomeAt_eq_none_iff.mpr ⟨hretry n hle, by omega⟩

/-- A deletion is tried at most as often as its policy says, and at least once. If nobody cancels it, it ends with the
first reply that is not worth another try, in the way in which this reply says, or else with its last try. Between two
calls lies the pause of its policy, and none after the last. It comes to no end exactly when such a pause has no duration.
If it is cancelled, it makes the calls that come before, and no other. -/
theorem deletion_takes_its_course (p : RetryPolicy) (words : Nat → Nat) (replies : Nat → Reply)
    (latency : Nat → Duration) (now : Millis) :
    let pauses (n : Nat) := p.delay? n (words n)
    let call := callTime pauses latency now
    let answer := answerTime pauses latency now
    let trace (cancelAt : Option Millis) := runWith p pauses replies latency cancelAt now
    p.limit = max p.maxAttempts 1 ∧
    (call 0 = now ∧ (∀ n, answer n = (call n).after (latency n)) ∧
      ∀ n pause, pauses n = some pause → call (n + 1) = (answer n).after pause) ∧
    (∀ cancelAt, (trace cancelAt).calls.length ≤ p.limit ∧
      (trace cancelAt).calls = (List.range (trace cancelAt).calls.length).map call ∧
      ∀ o, (trace cancelAt).outcome = some o → o.attempts = (trace cancelAt).calls.length) ∧
    (∀ k < p.limit, (∀ m < k, Reply.isRetryable (replies m) = true) → Reply.isRetryable (replies k) = false →
      (∀ m < k, (pauses m).isSome = true) →
      trace none = ⟨(List.range (k + 1)).map call, answer k, some (.ofReply (k + 1) (replies k))⟩) ∧
    (∀ f, (∀ m < p.limit, Reply.isRetryable (replies m) = true) → replies (p.limit - 1) = .error f →
      (∀ m, m + 1 < p.limit → (pauses m).isSome = true) →
      trace none = ⟨(List.range p.limit).map call, answer (p.limit - 1), some (.retriesExhausted p.limit f)⟩) ∧
    ((trace none).outcome = none ↔
      ∃ m, m + 1 < p.limit ∧ (∀ j ≤ m, Reply.isRetryable (replies j) = true) ∧ pauses m = none) ∧
    (∀ c, (∀ t ∈ (trace none).calls, t < c) → trace (some c) = trace none) ∧
    (∀ c n, n < (trace none).calls.length → (∀ m < n, call m < c) → c ≤ call n →
      trace (some c) = courseCut pauses latency now c n) ∧
    ∀ status message reason, (Fault.api status message reason 404).classify = .alreadyGone := by
  intro pauses call answer trace
  obtain ⟨n, hn, hstops⟩ := exists_stops p.limit_pos pauses replies
  have hwhole : trace none = courseTo p.limit pauses replies latency now n :=
    runWith_uninterrupted hstops hn fun _ _ => rfl
  refine ⟨rfl, ⟨rfl, fun _ => rfl, fun m pause hpause => ?_⟩,
    fun cancelAt => calls_runWith p pauses replies latency cancelAt now, ?decided, ?exhausted, ?endless, ?later, ?cut,
    Fault.classify_notFound⟩
  · show ((call m).after (latency m)).after ((pauses m).getD .zero) = _
    rw [hpause]
    rfl
  case decided =>
    intro k hk hretry hlast hpauses
    have hstops' : Stops p.limit pauses replies k :=
      ⟨fun m hm => ⟨hretry m hm, by omega, hpauses m hm⟩, fun h => absurd h (by simp [hlast])⟩
    rw [hwhole, hstops.unique hstops', courseTo, outcomeAt, if_neg (by simp [hlast])]
    rfl
  case exhausted =>
    intro f hretry hf hpauses
    have hstops' : Stops p.limit pauses replies (p.limit - 1) :=
      ⟨fun m hm => ⟨hretry m (by omega), by omega, hpauses m (by omega)⟩, fun _ h => absurd h (by omega)⟩
    have hclass : f.classify = .retryable := by
      simpa [hf, Reply.isRetryable] using hretry (p.limit - 1) (by omega)
    have hlast : p.limit - 1 + 1 = p.limit := by omega
    rw [hwhole, hstops.unique hstops', courseTo, outcomeAt, if_neg (by omega), hlast, hf]
    simp only [DeleteOutcome.ofReply, hclass]
    rfl
  case endless =>
    rw [hwhole]
    exact hstops.outcomeAt_eq_none_iff
  case later =>
    intro c hc
    rw [hwhole]
    refine runWith_uninterrupted hstops hn fun m hm => ?_
    have hmem : callTime pauses latency now m ∈ (trace none).calls := by
      rw [hwhole]
      exact List.mem_map_of_mem (List.mem_range.mpr (Nat.lt_succ_of_le hm))
    simpa [cancelledBy] using hc _ hmem
  case cut =>
    intro c m hm hbefore hcut
    have hlength : (trace none).calls.length = n + 1 := by
      rw [hwhole]
      exact length_callTimes (n + 1)
    exact runWith_interrupted (hstops.goesOn.mono (by omega)) hbefore hcut

/-- The longest pause that there is, at once. -/
def longestPauses : RetryPolicy :=
  { initial := Duration.ofSecs (UInt64.size - 1), jitter := .finite 0, maxDelay := Duration.ofSecs (UInt64.size - 1) }

/-- One reply that asks for patience, and then nothing but success. -/
def patience (n : Nat) : Reply := if n = 0 then .error (.api "Failure" "" "TooManyRequests" 429) else .ok ()

/-- The deletion should be tried twice, and comes to no end after its first call. -/
theorem endless_longestPauses :
    Reply.isRetryable (patience 0) = true ∧ Reply.isRetryable (patience 1) = false ∧ 1 < longestPauses.limit ∧
      let trace := runWith longestPauses (fun n => longestPauses.delay? n 0) patience (fun _ => .zero) none 0
      trace.calls = [0] ∧ trace.outcome = none := by
  decide +kernel

end Retry

end Reaper
