import Reaper.Proofs.Binary64.Values
import Reaper.Proofs.Bucket.Rounded
import Reaper.Proofs.Bucket.Window
import Reaper.Proofs.Time.Seconds

/-!
The waits of a limiter, as the program counts them.

Who finds no token is told how long the missing part takes to come in, and that has to be a duration. The longest wait
is the one for a whole token, and it is a duration exactly if the rate is above `2 ^ (-64)` tokens per second
(`isSome_wait_iff`). A rate that is taken need not be, so a limiter is sure to serve its callers exactly if all the
rates that it comes to are above that (`serves_iff`).

  §1 Buckets  — the wait for a token, and what keeps a bucket from telling one that is no duration.
  §2 Limiters — calls side by side.
-/

namespace Reaper

open Rounding (nearest nearest_mono nearest_nonneg)

/-! ## §1 Buckets -/

namespace Bucket

variable {b : Bucket} {q : Rat} {now : Duration}

/-- The wait for a whole token is a duration exactly if the rate is above `2 ^ (-64)`. -/
theorem isSome_wait_iff (hq : 0 < q) (hpoint : nearest q = q) :
    (Duration.ofSeconds? (nearest (1 / q))).isSome ↔ (2 : Rat) ^ (-64 : Int) < q := by
  rw [Duration.isSome_ofSeconds?_iff (nearest_nonneg (by positivity)) (Rounding.nearest_nearest _)]
  constructor
  · intro hlt
    by_contra hslow
    have hlong : (2 : Rat) ^ (64 : Int) ≤ 1 / q := by
      rw [le_div_iff₀ hq]
      calc (2 : Rat) ^ (64 : Int) * q ≤ 2 ^ (64 : Int) * 2 ^ (-64 : Int) := by gcongr; exact not_lt.mp hslow
        _ = 1 := by norm_num
    exact (Rounding.pow_le_nearest (by omega) hlong).not_gt (by exact_mod_cast hlt)
  · intro hfast
    -- the next rate of the grid leads to the next wait of the grid below the limit
    have hnext := Rounding.pow_add_le hfast hpoint
    have hshort : 1 / q ≤ ((2 ^ 64 - 2048 : Nat) : Rat) := by
      rw [div_le_iff₀ hq]
      calc (1 : Rat) ≤ (2 ^ 64 - 2048 : Nat) * (2 ^ (-64 : Int) + 2 ^ (-64 - 52 : Int)) := by norm_num
        _ ≤ (2 ^ 64 - 2048 : Nat) * q := by gcongr
    calc nearest (1 / q) ≤ nearest ((2 ^ 64 - 2048 : Nat) : Rat) := nearest_mono hshort
      _ < 2 ^ 64 := by decide +kernel

/-- The wait for the missing part of a token is no longer than that for a whole one. -/
theorem exists_wait (hpoint : nearest q = q) (hfast : (2 : Rat) ^ (-64 : Int) < q) {missing : Rat} (h0 : 0 ≤ missing)
    (h1 : missing ≤ 1) : ∃ d, Duration.ofSeconds? (nearest (missing / q)) = some d := by
  have hq : 0 < q := lt_trans (by positivity) hfast
  have hle : nearest (missing / q) ≤ nearest (1 / q) := nearest_mono (by gcongr)
  have hwhole := (isSome_wait_iff hq hpoint).mpr hfast
  rw [Duration.isSome_ofSeconds?_iff (nearest_nonneg (by positivity)) (Rounding.nearest_nearest _)] at hwhole
  refine Option.isSome_iff_exists.mp ?_
  rw [Duration.isSome_ofSeconds?_iff (nearest_nonneg (by positivity)) (Rounding.nearest_nearest _)]
  exact hle.trans_lt hwhole

/-- A bucket that fills fast enough: what is missing of a token comes in within a duration. -/
structure Fills (b : Bucket) : Prop where
  onGrid : b.OnGrid
  fast : (2 : Rat) ^ (-64 : Int) < b.rate
  tokens_nonneg : 0 ≤ b.tokens

theorem Fills.full (hpoint : nearest q = q) (hfast : (2 : Rat) ^ (-64 : Int) < q) (now : Duration) :
    (Bucket.full q now).Fills where
  onGrid := onGrid_full hpoint now
  fast := hfast
  tokens_nonneg := zero_le_one.trans (one_le_capacityOf q)

namespace Fills

theorem rate_pos (h : b.Fills) : 0 < b.rate := lt_trans (by positivity) h.fast

/-- What is counted is never negative. -/
theorem count_nonneg (h : b.Fills) (now : Duration) : 0 ≤ b.count now := by
  have hgained : 0 ≤ nearest ((elapsed b.lastRefill now).seconds nearest * b.rate) :=
    nearest_nonneg (mul_nonneg (Duration.seconds_nonneg _) h.rate_pos.le)
  simp only [count, refill, kept_eq_min]
  refine le_min (nearest_nonneg (add_nonneg h.tokens_nonneg hgained)) ?_
  rw [h.onGrid.capacity_eq]
  exact zero_le_one.trans (one_le_capacityOf b.rate)

/-- A request takes a token that is counted, or is told a wait that is a duration. -/
theorem request_cases (h : b.Fills) (now : Duration) :
    (1 ≤ b.count now ∧
      b.request nearest now = (⟨b.rate, b.capacity, nearest (b.count now - 1), now⟩, .granted)) ∨
    (b.count now < 1 ∧ ∃ d, b.request nearest now = (⟨b.rate, b.capacity, b.count now, now⟩, .wait d)) := by
  unfold Bucket.request
  rw [take_nearest]
  by_cases hone : 1 ≤ b.count now
  · rw [if_pos hone]
    exact .inl ⟨hone, rfl⟩
  · have hmissing : nearest (1 - b.count now) ≤ 1 := by
      have hle : 1 - b.count now ≤ 1 := sub_le_self _ (h.count_nonneg now)
      exact (nearest_mono hle).trans_eq Rounding.nearest_one
    obtain ⟨d, hd⟩ := exists_wait h.onGrid.rate h.fast (nearest_nonneg (sub_nonneg.mpr (not_le.mp hone).le)) hmissing
    rw [if_neg hone]
    dsimp only
    rw [hd]
    exact .inr ⟨not_le.mp hone, d, rfl⟩

/-- A request leaves the bucket as it should be, and any wait that it tells is a duration. -/
theorem request (h : b.Fills) (now : Duration) :
    (b.request nearest now).1.Fills ∧ (b.request nearest now).2 ≠ .unrepresentable := by
  have honGrid (tokens : Rat) : (Bucket.mk b.rate b.capacity tokens now).OnGrid :=
    ⟨h.onGrid.rate, h.onGrid.capacity_eq⟩
  obtain ⟨hone, heq⟩ | ⟨-, d, heq⟩ := h.request_cases now <;> rw [heq]
  · exact ⟨⟨honGrid _, h.fast, nearest_nonneg (sub_nonneg.mpr hone)⟩, nofun⟩
  · exact ⟨⟨honGrid _, h.fast, h.count_nonneg now⟩, nofun⟩

theorem setRate (h : b.Fills) (hpoint : nearest q = q) (hfast : (2 : Rat) ^ (-64 : Int) < q) (now : Duration) :
    (b.setRate nearest now q).Fills := by
  have honGrid := h.onGrid.setRate hpoint now
  unfold Bucket.setRate at honGrid ⊢
  split
  · exact h
  · rename_i hchanged
    rw [if_neg hchanged] at honGrid
    refine ⟨honGrid, hfast, ?_⟩
    show 0 ≤ kept (capacityOf q) (b.count now)
    rw [kept_eq_min]
    exact le_min (h.count_nonneg now) (zero_le_one.trans (one_le_capacityOf q))

end Fills

/-- At a rate that is too low, the wait after the first token is no duration. -/
theorem request_full (hq : 0 < q) (hpoint : nearest q = q) (hslow : q ≤ (2 : Rat) ^ (-64 : Int)) (now : Duration) :
    (Bucket.full q now).request nearest now = (⟨q, 1, 0, now⟩, .granted) ∧
      (Bucket.mk q 1 0 now).request nearest now = (⟨q, 1, 0, now⟩, .unrepresentable) := by
  have hone : capacityOf q = 1 := if_pos (hslow.trans (by norm_num))
  have hfull : (Bucket.mk q 1 1 now).count now = 1 := count_of_lastRefill rfl Rounding.nearest_one le_rfl
  have hempty : (Bucket.mk q 1 0 now).count now = 0 := count_of_lastRefill rfl Rounding.nearest_zero zero_le_one
  have hnone : Duration.ofSeconds? (nearest (1 / q)) = none := by
    rw [← Option.not_isSome_iff_eq_none, isSome_wait_iff hq hpoint]
    exact hslow.not_gt
  constructor
  · unfold Bucket.full request
    rw [hone, take_nearest, hfull, if_pos le_rfl, sub_self, Rounding.nearest_zero]
  · unfold request
    rw [take_nearest, hempty, if_neg (by norm_num), sub_zero, Rounding.nearest_one]
    dsimp only
    rw [hnone]

end Bucket

/-! ## §2 Limiters -/

/-- A call that has not begun, and that comes to one of some rates if it changes the rate. -/
def LimiterTask.IsCall (rates : Binary64 → Prop) : LimiterTask → Prop
  | .acquiring wake => wake = .zero
  | .trying => True
  | .reconfiguring x => rates x
  | .ended _ => False

namespace LimiterRun

variable {s : LimiterRun} {rates : Binary64 → Prop}

/-- No call of a limiter that is made at one of some rates, and comes to no others, is told a wait that is no
duration. -/
def Serves (rates : Binary64 → Prop) : Prop :=
  ∀ (x : Binary64) (q : Rat) (start : Duration) (tasks : Array LimiterTask) (events : List LimiterEvent),
    rates x → Bucket.rate? x = .ok q → (∀ (i : Nat) (t : LimiterTask), tasks[i]? = some t → t.IsCall rates) →
      InOrder events → ∀ i : Nat, ((begin q start tasks).run nearest events).tasks[i]? ≠ some (.ended .unrepresentable)

/-- What keeps a limiter serving its callers: its bucket fills fast enough, and will do so at all rates that it may come
to. -/
structure IsServing (s : LimiterRun) : Prop where
  fills : s.bucket.Fills
  rates : ∀ {i : Nat} {x : Binary64} {q : Rat}, s.tasks[i]? = some (.reconfiguring x) → Bucket.rate? x = .ok q →
    nearest q = q ∧ (2 : Rat) ^ (-64 : Int) < q
  served : ∀ i : Nat, s.tasks[i]? ≠ some (.ended .unrepresentable)

/-- Putting another task in a place, which neither changes the rate nor has been told a wait that is no duration. -/
theorem IsServing.put (h : s.IsServing) {b : Bucket} (hb : b.Fills) (grants : List Duration) (i : Nat) {t : LimiterTask}
    (hrate : ∀ x, t ≠ .reconfiguring x) (hserved : t ≠ .ended .unrepresentable) :
    (LimiterRun.put { s with bucket := b, grants } i t).IsServing := by
  -- a task after it is the new one, or was there before
  have htask {j : Nat} {u : LimiterTask} (hu : (s.tasks.setIfInBounds i t)[j]? = some u) :
      u = t ∨ s.tasks[j]? = some u := by
    rw [Array.getElem?_setIfInBounds] at hu
    split at hu
    · split at hu
      · exact .inl (Option.some.inj hu).symm
      · cases hu
    · exact .inr hu
  refine ⟨hb, fun {j x q} hx hq => ?_, fun j hj => ?_⟩
  · exact h.rates ((htask hx).resolve_left fun heq => hrate x heq.symm) hq
  · exact (htask hj).elim (fun heq => hserved heq.symm) (h.served j)

theorem IsServing.attempt (h : s.IsServing) (i : Nat) (now : Duration) {later : Duration → LimiterTask}
    (hrate : ∀ d x, later d ≠ .reconfiguring x) (hserved : ∀ d, later d ≠ .ended .unrepresentable) :
    (s.attempt nearest i now later).IsServing := by
  obtain ⟨hfills, hrepresentable⟩ := h.fills.request now
  unfold LimiterRun.attempt
  rcases hasked : s.bucket.request nearest now with ⟨b, _ | d | _⟩ <;> rw [hasked] at hfills hrepresentable
  · exact h.put hfills _ i (fun _ => nofun) nofun
  · exact h.put hfills _ i (hrate d) (hserved d)
  · exact absurd rfl hrepresentable

theorem IsServing.step (h : s.IsServing) (e : LimiterEvent) : (s.step nearest e).IsServing := by
  unfold LimiterRun.step
  split
  · split
    · exact h.put h.fills _ e.task (fun _ => nofun) nofun
    · split
      · exact h
      · exact h.attempt e.task e.now (fun _ _ => nofun) fun _ => nofun
  · exact h.attempt e.task e.now (fun _ _ => nofun) fun _ => nofun
  · rename_i x hx
    split
    · exact h.put h.fills _ e.task (fun _ => nofun) nofun
    · rename_i q hq
      obtain ⟨hpoint, hfast⟩ := h.rates hx hq
      exact h.put (h.fills.setRate hpoint hfast e.now) _ e.task (fun _ => nofun) nofun
  · exact h
  · exact h

theorem IsServing.run (h : s.IsServing) (events : List LimiterEvent) : (s.run nearest events).IsServing := by
  induction events generalizing s with
  | nil => exact h
  | cons e events ih => exact ih (h.step e)

/-- Two calls that try for a token. -/
def twoTries : Array LimiterTask := #[.trying, .trying]

/-- The two calls at one moment, one after the other. -/
def bothTry (now : Duration) : List LimiterEvent := [⟨0, now, false⟩, ⟨1, now, false⟩]

/-- At a rate that is too low, the second of two calls at one moment is told a wait that is no duration. -/
theorem unserved_bothTry {q : Rat} (hq : 0 < q) (hpoint : nearest q = q) (hslow : q ≤ (2 : Rat) ^ (-64 : Int))
    (now : Duration) :
    ((begin q now twoTries).run nearest (bothTry now)).tasks[1]? = some (.ended .unrepresentable) := by
  obtain ⟨hfirst, hsecond⟩ := Bucket.request_full hq hpoint hslow now
  have hone : (begin q now twoTries).step nearest ⟨0, now, false⟩ =
      { bucket := ⟨q, 1, 0, now⟩, tasks := #[.ended .granted, .trying], grants := [now] } := by
    show (begin q now twoTries).attempt nearest 0 now _ = _
    unfold attempt begin
    rw [hfirst]
    rfl
  show (((begin q now twoTries).step nearest ⟨0, now, false⟩).step nearest ⟨1, now, false⟩).tasks[1]? = _
  rw [hone]
  show (attempt nearest _ 1 now _).tasks[1]? = _
  unfold attempt
  rw [hsecond]
  rfl

/-- Rates that are taken serve every caller exactly if each of them is above `2 ^ (-64)` tokens per second, however the
calls are interleaved and whichever of the rates they come to. -/
theorem serves_iff (hgrid : ∀ x, rates x → x.OnGrid) :
    Serves rates ↔ ∀ x q, rates x → Bucket.rate? x = .ok q → (2 : Rat) ^ (-64 : Int) < q := by
  have hpoint {x : Binary64} {q : Rat} (hx : rates x) (hq : Bucket.rate? x = .ok q) : nearest q = q :=
    hgrid x hx q (Bucket.eq_finite_of_rate? hq).1
  constructor
  · intro hserves x q hx hq
    by_contra hslow
    refine hserves x q .zero twoTries (bothTry .zero) hx hq ?_ (by decide) 1 ?_
    · intro i t ht
      have hmem : t ∈ twoTries := Array.mem_of_getElem? ht
      obtain rfl : t = .trying := by simpa [twoTries] using hmem
      trivial
    · exact unserved_bothTry (Bucket.pos_of_rate? hq) (hpoint hx hq) (not_lt.mp hslow) .zero
  · intro hfast x q start tasks events hx hq hcalls _ i
    have hbegin : (begin q start tasks).IsServing :=
      { fills := .full (hpoint hx hq) (hfast x q hx hq) start
        rates := fun {j y p} hy hp => ⟨hpoint (hcalls j _ hy) hp, hfast y p (hcalls j _ hy) hp⟩
        served := fun j hj => hcalls j _ hj }
    exact (hbegin.run events).served i

/-- Ten tokens a second, and the first rate of the grid above `2 ^ (-64)`. -/
def busyOrIdle (x : Binary64) : Prop := x = .finite 10 ∨ x = .finite ((2 ^ 52 + 1) / 2 ^ 116)

/-- A limiter that goes back and forth between the two serves all its callers. -/
theorem serves_busyOrIdle : (∀ x, busyOrIdle x → x.OnGrid) ∧ Serves busyOrIdle := by
  have hgrid : ∀ x, busyOrIdle x → x.OnGrid := by
    rintro x (rfl | rfl) q hq <;> cases hq <;> decide +kernel
  refine ⟨hgrid, (serves_iff hgrid).mpr ?_⟩
  rintro x q (rfl | rfl) hq <;> rw [← Binary64.finite.inj (Bucket.eq_finite_of_rate? hq).1] <;> decide +kernel

/-- At `2 ^ (-64)` tokens per second, a rate that is taken, the second of two calls at one moment is told no
duration. -/
theorem unserved_slowRate :
    let q : Rat := 1 / 2 ^ 64
    nearest q = q ∧ Bucket.rate? (.finite q) = .ok q ∧
      ((begin q .zero twoTries).run nearest (bothTry .zero)).tasks = #[.ended .granted, .ended .unrepresentable] := by
  decide +kernel

end LimiterRun

end Reaper
