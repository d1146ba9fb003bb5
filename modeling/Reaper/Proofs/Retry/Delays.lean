import Reaper.Proofs.Retry.Draws
import Reaper.Proofs.Settings
import Reaper.Proofs.Time.Seconds

/-!
The pauses that settings lead to.

A pause is meant to be a duration, and no longer than the longest pause. The product of the first pause and the power
of the factor is compared with the longest pause when both are rounded to numbers of seconds, and the random part is
multiplied in before the pause is cut again. So two things can go wrong, and nothing else (`isSafe_iff`): a product may
be what the longest pause is rounded up to, and the multiple of a pause may be too long for a duration. Settings of
whatever first pause and factor are kept from both exactly when their longest pause is not rounded up and is less than
half of what a duration holds (`delays_are_safe_iff`).

  §1 Bases    — pauses without their random part.
  §2 Scales   — the random part.
  §3 Settings — the pauses of settings that pass their check.
-/

namespace Reaper

open Rounding (nearest nearest_mono nearest_nearest nearest_nonneg)

/-! ## §1 Bases -/

namespace RetryPolicy

open Binary64

/-- The first pause times the power of the factor, in seconds. -/
def product (p : RetryPolicy) (attempt : Nat) : Binary64 :=
  p.initial.toBinary64 * p.factor.power (min attempt exponentLimit)

variable {p : RetryPolicy} {limit attempt : Nat} {base : Duration}

/-- A pause without its random part is the longest pause, or what the product comes to. -/
theorem baseDelay?_cases (p : RetryPolicy) (hmax : p.maxDelay = Duration.ofSecs limit) (attempt : Nat) :
    p.baseDelay? attempt = some p.maxDelay ∧ (p.product attempt).toRat? ≠ some (nearest limit) ∨
      ∃ q, (p.product attempt).toRat? = some q ∧ 0 ≤ q ∧ q ≤ nearest limit ∧
        p.baseDelay? attempt = Duration.ofSeconds? q := by
  have hbase : p.baseDelay? attempt = if !(p.product attempt).isFinite || (p.product attempt).lt (.finite 0) ||
      p.maxDelay.toBinary64.lt (p.product attempt) then some p.maxDelay
      else Duration.ofBinary64? (p.product attempt) := rfl
  have hlimit : p.maxDelay.toBinary64.toRat? = some (nearest limit) := by
    rw [hmax, Duration.toBinary64, Duration.seconds_ofSecs]
    rfl
  cases hproduct : (p.product attempt).toRat? with
  | none =>
    rw [hbase, isFinite, hproduct]
    exact .inl ⟨rfl, nofun⟩
  | some q =>
    rw [hbase, isFinite, Duration.ofBinary64?, hproduct, lt_eq hproduct rfl, lt_eq hlimit hproduct]
    have hnonneg : 0 ≤ nearest limit := nearest_nonneg (Nat.cast_nonneg _)
    by_cases hneg : q < 0
    · refine .inl ⟨by simp [hneg], fun h => ?_⟩
      cases h
      exact hnonneg.not_gt hneg
    · by_cases habove : nearest limit < q
      · refine .inl ⟨by simp [habove], fun h => ?_⟩
        cases h
        exact lt_irrefl _ habove
      · exact .inr ⟨q, rfl, not_lt.mp hneg, not_lt.mp habove, by simp [hneg, habove]⟩

/-- A product above what the longest pause is rounded to gives the longest pause. -/
theorem baseDelay?_of_lt {q : Rat} (hmax : p.maxDelay = Duration.ofSecs limit)
    (hproduct : (p.product attempt).toRat? = some q) (h : nearest limit < q) :
    p.baseDelay? attempt = some p.maxDelay := by
  rcases baseDelay?_cases p hmax attempt with ⟨hbase, -⟩ | ⟨q', hproduct', -, hle, -⟩
  · exact hbase
  · obtain rfl : q = q' := Option.some.inj (hproduct.symm.trans hproduct')
    exact absurd hle h.not_ge

/-- Unless the product is what the longest pause is rounded up to, a pause without its random part is a duration and no
longer than the longest pause. -/
theorem exists_baseDelay (hmax : p.maxDelay = Duration.ofSecs limit) (hlimit : limit < Duration.secondsLimit)
    (h : (p.product attempt).toRat? = some (nearest limit) → nearest limit ≤ limit) :
    ∃ base, p.baseDelay? attempt = some base ∧ base ≤ p.maxDelay := by
  rcases baseDelay?_cases p hmax attempt with ⟨hbase, -⟩ | ⟨q, hproduct, hnonneg, hle, hbase⟩
  · exact ⟨_, hbase, Nat.le_refl _⟩
  · -- the product is on the grid, and the grid has nothing between the longest pause and what it is rounded to
    have hpoint : nearest q = q := (onGrid_mul _ _).nearest_eq hproduct
    have hq : q ≤ limit := by
      rcases hle.eq_or_lt with rfl | hlt
      · exact h hproduct
      · by_contra hpassed
        have hround := nearest_mono (not_le.mp hpassed).le
        rw [hpoint] at hround
        exact hround.not_gt hlt
    rw [hbase, hmax]
    exact Duration.ofSeconds?_of_le hnonneg hq hlimit

/-- If the product is what the longest pause is rounded up to, the pause is longer, or no duration. -/
theorem nearest_le_of_baseDelay (hmax : p.maxDelay = Duration.ofSecs limit)
    (hproduct : (p.product attempt).toRat? = some (nearest limit)) (hbase : p.baseDelay? attempt = some base)
    (hle : base ≤ p.maxDelay) : nearest limit ≤ limit := by
  rcases baseDelay?_cases p hmax attempt with ⟨-, hne⟩ | ⟨q, hproduct', -, -, hbase'⟩
  · exact absurd hproduct hne
  · obtain rfl : nearest limit = q := Option.some.inj (hproduct.symm.trans hproduct')
    rw [hbase] at hbase'
    obtain ⟨k, hk⟩ := Rounding.exists_nearest_natCast limit
    have hlonger := Duration.ofSecs_le_of_ofSeconds? hk.symm.le hbase'.symm
    rw [hmax] at hle
    have hnanos : k * Duration.perSecond ≤ limit * Duration.perSecond := Nat.le_trans hlonger hle
    rw [hk]
    exact Nat.cast_le.mpr (Nat.le_of_mul_le_mul_right hnanos (by decide))

/-! ## §2 Scales -/

/-- What a pause is multiplied by when a word is drawn. -/
def scale (p : RetryPolicy) (word : Nat) : Binary64 := .finite 1 + symmetric p.spread word

/-- The policy has a random part of a size between zero and one. -/
structure HasJitter (p : RetryPolicy) (s : Rat) : Prop where
  value : p.jitter.toRat? = some s
  nonneg : 0 ≤ s
  le_one : s ≤ 1
  point : nearest s = s

variable {s c : Rat} {word : Nat}

theorem HasJitter.spread_eq (h : p.HasJitter s) : p.spread = p.jitter := by
  unfold spread
  rw [lt_eq h.value rfl, lt_eq rfl h.value, decide_eq_false h.nonneg.not_gt, decide_eq_false h.le_one.not_gt]
  rfl

theorem HasJitter.isRandom_eq (h : p.HasJitter s) : p.isRandom = !decide (s = 0) := by
  rw [isRandom, h.spread_eq, same_eq h.value rfl]

/-- What is drawn is between zero and two, and highest for the greatest word. -/
theorem HasJitter.exists_scales (h : p.HasJitter s) (hrandom : p.isRandom = true) :
    ∃ c : Nat → Rat, ∀ word, (p.scale word).toRat? = some (c word) ∧ 0 ≤ c word ∧ c word ≤ 2 ∧ c word ≤ c topWord := by
  have hne : s ≠ 0 := by simpa [h.isRandom_eq] using hrandom
  have hspread : p.spread = .finite s := h.spread_eq.trans (eq_finite h.value hne)
  have hs : 0 < s := h.nonneg.lt_of_ne' hne
  have htwo : nearest 2 = 2 := by decide +kernel
  obtain ⟨width, hwidth, hfits, hdraw⟩ := exists_symmetric hs h.le_one h.point
  refine ⟨fun word => nearest (1 + draw s width word), fun word => ?_⟩
  have hlow : -s ≤ draw s width word := neg_le_draw h.point hwidth word
  have htop : draw s width word ≤ draw s width topWord := draw_le_draw_topWord hwidth word
  have hle := h.le_one
  refine ⟨?_, nearest_nonneg (by linarith), ?_, nearest_mono (by linarith)⟩
  · rw [scale, hspread]
    exact toRat?_add rfl (hdraw word) Rounding.nearest_one (nearest_draw s width word)
      (abs_le.mpr ⟨by linarith, by linarith⟩)
  · have := nearest_mono (show 1 + draw s width word ≤ 2 by linarith)
    rwa [htwo] at this

/-- A random part as large as the pause itself doubles the pause for the greatest word. -/
theorem HasJitter.scale_topWord (h : p.HasJitter 1) : p.scale topWord = .finite 2 := by
  have hspread : p.spread = .finite 1 := h.spread_eq.trans (eq_finite h.value one_ne_zero)
  rw [scale, hspread]
  decide +kernel

/-- A policy without a random part pauses as long as the product says. -/
theorem delay?_of_not_random (h : p.isRandom = false) (attempt word : Nat) :
    p.delay? attempt word = p.baseDelay? attempt := by
  unfold delay?
  rw [h]
  cases p.baseDelay? attempt <;> rfl

/-- The multiple of a pause is rounded once. -/
theorem toRat?_scale_mul (hscale : (p.scale word).toRat? = some c) (h0 : 0 ≤ c) (h2 : c ≤ 2)
    (hbase : base.seconds nearest ≤ 2 ^ 65) :
    (p.scale word * base.toBinary64).toRat? = some (nearest (c * base.seconds nearest)) := by
  have hnonneg := base.seconds_nonneg
  have hproduct : 0 ≤ c * base.seconds nearest := mul_nonneg h0 hnonneg
  have hle : c * base.seconds nearest ≤ 2 * 2 ^ 65 := mul_le_mul h2 hbase hnonneg two_pos.le
  exact toRat?_mul hscale rfl (abs_le.mpr ⟨by linarith, by linarith⟩)

/-- A pause with its random part is at most the longest one, if the multiple of the pause is a duration. -/
theorem HasJitter.exists_delay_iff (h : p.HasJitter s) (hrandom : p.isRandom = true)
    (hbase : p.baseDelay? attempt = some base) (hscale : (p.scale word).toRat? = some c) (h0 : 0 ≤ c) (h2 : c ≤ 2)
    (hseconds : base.seconds nearest ≤ 2 ^ 65) :
    (∃ delay, p.delay? attempt word = some delay ∧ delay ≤ p.maxDelay) ↔
      nearest (c * base.seconds nearest) < 2 ^ 64 := by
  have hnan : p.spread ≠ .nan := by
    intro hnan
    have := h.value
    rw [← h.spread_eq, hnan] at this
    cases this
  have hdelay : p.delay? attempt word =
      (Duration.ofSeconds? (nearest (c * base.seconds nearest))).bind fun d => some (min d p.maxDelay) := by
    have hscaled := toRat?_scale_mul hscale h0 h2 hseconds
    unfold scale at hscaled
    unfold delay?
    rw [hbase, hrandom]
    simp only [Option.bind_eq_bind, Option.bind_some, Bool.not_true, Bool.false_eq_true, if_false, if_neg hnan,
      Duration.ofBinary64?, hscaled]
  have hnonneg := nearest_nonneg (mul_nonneg h0 base.seconds_nonneg)
  rw [hdelay, ← Duration.isSome_ofSeconds?_iff hnonneg (nearest_nearest _)]
  constructor
  · rintro ⟨delay, hsome, -⟩
    obtain ⟨d, hd, -⟩ := Option.bind_eq_some_iff.mp hsome
    exact Option.isSome_of_eq_some hd
  · intro hsome
    obtain ⟨d, hd⟩ := Option.isSome_iff_exists.mp hsome
    exact ⟨min d p.maxDelay, by rw [hd]; rfl, Nat.min_le_right ..⟩

/-- Every pause is a duration and no longer than the longest pause, with its random part and without. -/
def IsSafe (p : RetryPolicy) : Prop :=
  ∀ attempt word, ∃ base delay, p.baseDelay? attempt = some base ∧ base ≤ p.maxDelay ∧
    p.delay? attempt word = some delay ∧ delay ≤ p.maxDelay

/-- The two things that can go wrong. -/
theorem HasJitter.isSafe_iff (h : p.HasJitter s) (hmax : p.maxDelay = Duration.ofSecs limit)
    (hlimit : limit < Duration.secondsLimit) :
    p.IsSafe ↔
      (∀ attempt, (p.product attempt).toRat? = some (nearest limit) → nearest limit ≤ limit) ∧
      (p.isRandom = true → ∀ attempt base, p.baseDelay? attempt = some base →
        (p.scale topWord * base.toBinary64).lt (.finite (2 ^ 64)) = true) := by
  -- no pause counts more than twice the seconds that a duration holds
  have hseconds {base : Duration} (hle : base ≤ p.maxDelay) : base.seconds nearest ≤ 2 ^ 65 := by
    have hround := Duration.nearest_le hlimit
    have htwice : nearest (2 ^ 65) = 2 ^ 65 := by decide +kernel
    refine (Duration.seconds_le (hmax ▸ hle)).trans ?_
    rw [← htwice]
    exact nearest_mono (by linarith)
  constructor
  · intro hsafe
    refine ⟨fun attempt hproduct => ?_, fun hrandom attempt base hbase => ?_⟩
    · obtain ⟨base, -, hbase, hle, -⟩ := hsafe attempt 0
      exact nearest_le_of_baseDelay hmax hproduct hbase hle
    · obtain ⟨base', delay, hbase', hle, hdelay⟩ := hsafe attempt topWord
      obtain rfl : base = base' := Option.some.inj (hbase.symm.trans hbase')
      obtain ⟨c, hc⟩ := h.exists_scales hrandom
      obtain ⟨hscale, h0, h2, -⟩ := hc topWord
      rw [lt_eq (toRat?_scale_mul hscale h0 h2 (hseconds hle)) rfl]
      exact decide_eq_true ((h.exists_delay_iff hrandom hbase hscale h0 h2 (hseconds hle)).mp ⟨delay, hdelay⟩)
  · rintro ⟨hproduct, htop⟩ attempt word
    obtain ⟨base, hbase, hle⟩ := exists_baseDelay hmax hlimit (hproduct attempt)
    cases hrandom : p.isRandom with
    | false => exact ⟨base, base, hbase, hle, (delay?_of_not_random hrandom attempt word).trans hbase, hle⟩
    | true =>
      obtain ⟨c, hc⟩ := h.exists_scales hrandom
      obtain ⟨hscale, h0, h2, hctop⟩ := hc word
      obtain ⟨hscaletop, htop0, htop2, -⟩ := hc topWord
      have hlast := htop hrandom attempt base hbase
      rw [lt_eq (toRat?_scale_mul hscaletop htop0 htop2 (hseconds hle)) rfl, decide_eq_true_eq] at hlast
      -- the greatest word gives the longest pause
      have hword : nearest (c word * base.seconds nearest) < 2 ^ 64 :=
        (nearest_mono (mul_le_mul_of_nonneg_right hctop base.seconds_nonneg)).trans_lt hlast
      obtain ⟨delay, hdelay⟩ := (h.exists_delay_iff hrandom hbase hscale h0 h2 (hseconds hle)).mpr hword
      exact ⟨base, delay, hbase, hle, hdelay⟩

/-- A longest pause that is not rounded up, and is less than half of what a duration holds, keeps the pauses safe. -/
theorem HasJitter.isSafe (h : p.HasJitter s) (hmax : p.maxDelay = Duration.ofSecs limit)
    (hround : nearest limit ≤ limit) (hhalf : limit < 2 ^ 63) : p.IsSafe := by
  have hlimit : limit < Duration.secondsLimit := hhalf.trans (by decide)
  refine (h.isSafe_iff hmax hlimit).mpr ⟨fun _ _ => hround, fun hrandom attempt base hbase => ?_⟩
  -- it is not rounded past the last point of the grid below `2 ^ 63`
  have hlast : nearest limit ≤ 2 ^ 63 - 1024 := by
    have hle : limit ≤ 2 ^ 63 - 513 := by
      by_contra hpassed
      have hcast : ((2 ^ 63 - 512 : Nat) : Rat) ≤ limit := Nat.cast_le.mpr (by omega)
      have hup := nearest_mono hcast
      rw [show nearest ((2 ^ 63 - 512 : Nat) : Rat) = (2 ^ 63 : Nat) by decide +kernel] at hup
      have := Nat.cast_le.mp (hup.trans hround)
      omega
    exact (nearest_mono (Nat.cast_le.mpr hle)).trans_eq (by decide +kernel)
  obtain ⟨base', hbase', hle⟩ : ∃ base, p.baseDelay? attempt = some base ∧ base ≤ p.maxDelay :=
    exists_baseDelay hmax hlimit fun _ => hround
  obtain rfl : base = base' := Option.some.inj (hbase.symm.trans hbase')
  have hseconds : base.seconds nearest ≤ 2 ^ 63 - 1024 := by
    refine (Duration.seconds_le (hmax ▸ hle)).trans ?_
    exact (nearest_mono (add_le_add_left hlast 1)).trans_eq (by decide +kernel)
  obtain ⟨c, hc⟩ := h.exists_scales hrandom
  obtain ⟨hscale, h0, h2, -⟩ := hc topWord
  rw [lt_eq (toRat?_scale_mul hscale h0 h2 (hseconds.trans (by norm_num))) rfl]
  refine decide_eq_true ?_
  calc nearest (c topWord * base.seconds nearest) ≤ nearest (2 * (2 ^ 63 - 1024)) :=
        nearest_mono (mul_le_mul h2 hseconds base.seconds_nonneg two_pos.le)
    _ < 2 ^ 64 := by decide +kernel

end RetryPolicy

/-! ## §3 Settings -/

open Binary64

/-- The numbers of the settings are ones that can be read. -/
structure RetrySettings.Fits (r : RetrySettings) : Prop where
  maxAttempts : r.maxAttempts < UInt32.size
  initialMillis : r.initialMillis < UInt64.size
  maxDelaySeconds : r.maxDelaySeconds < UInt64.size
  factor : r.factor.OnGrid
  jitter : r.jitter.OnGrid

/-- The check lets no random part pass that is not between zero and one. -/
theorem Settings.exists_jitter {s : Settings} (hcheck : s.check.isOk = true) (hfits : s.retry.Fits) :
    ∃ j, s.retry.policy.HasJitter j := by
  have hrange := (Settings.check_isOk_iff.mp hcheck).jitter
  cases hvalue : s.retry.jitter.toRat? with
  | none =>
    cases hjitter : s.retry.jitter with
    | finite q => simp [hjitter, toRat?] at hvalue
    | negativeZero => simp [hjitter, toRat?] at hvalue
    | infinite negative => cases negative <;> simp [hjitter, le, lt, same] at hrange
    | nan => simp [hjitter, le, lt, same] at hrange
  | some j =>
    rw [le_eq (p := 0) rfl hvalue, le_eq (q := 1) hvalue rfl, Bool.and_eq_true, decide_eq_true_eq,
      decide_eq_true_eq] at hrange
    exact ⟨j, hvalue, hrange.1, hrange.2, hfits.jitter.nearest_eq hvalue⟩

namespace Settings

/-- Settings whose first pause is a second, so that their second product is the factor. -/
def steep (limit : Nat) (factor : Rat) (jitter : Binary64) : Settings :=
  { retry := { initialMillis := 1000, factor := .finite factor, jitter, maxDelaySeconds := limit } }

variable {limit : Nat} {f : Rat} {jitter : Binary64}

/-- They pass their check if the factor and the random part are in range. -/
theorem check_steep (hf : 1 ≤ f) (hjitter : ((Binary64.finite 0).le jitter && jitter.le (.finite 1)) = true) :
    (steep limit f jitter).check.isOk = true := by
  have hfactor : (Binary64.finite f).lt (.finite 1) = false := by rw [lt_eq rfl rfl, decide_eq_false hf.not_gt]
  have hinitial : IsAccepted {} := check_isOk_iff.mp (by decide +kernel)
  exact check_isOk_iff.mpr { hinitial with factor := ⟨rfl, hfactor⟩, jitter := hjitter }

theorem fits_steep (hlimit : limit < UInt64.size) (hf : nearest f = f) (hjitter : jitter.OnGrid) :
    (steep limit f jitter).retry.Fits where
  maxAttempts := (by decide : 5 < UInt32.size)
  initialMillis := (by decide : 1000 < UInt64.size)
  maxDelaySeconds := hlimit
  factor := fun _ h => by cases h; exact hf
  jitter := hjitter

theorem toRat?_product_steep (hf : 0 ≤ f) (hlarge : f ≤ 2 ^ 128) (hpoint : nearest f = f) :
    ((steep limit f jitter).retry.policy.product 1).toRat? = some f := by
  have hbound : |1 * f| ≤ 2 ^ 128 := abs_le.mpr ⟨by linarith, by linarith⟩
  have hinitial : (Duration.ofMillis 1000).toBinary64 = .finite 1 := by decide +kernel
  have hpower : (Binary64.finite 1 * .finite f).toRat? = some f := by
    rw [toRat?_mul rfl rfl hbound, one_mul, hpoint]
  change ((Duration.ofMillis 1000).toBinary64 * (.finite 1 * .finite f)).toRat? = some f
  rw [hinitial, toRat?_mul rfl hpower hbound, one_mul, hpoint]

/-- A longest pause that is rounded up is not safe: the factor may be what it is rounded to. -/
theorem exists_unsafe_of_roundedUp (hlimit : limit < UInt64.size) (hup : limit < nearest limit) :
    ∃ s : Settings, s.check.isOk = true ∧ s.retry.Fits ∧ s.retry.maxDelaySeconds = limit ∧ ¬ s.retry.policy.IsSafe := by
  have hlarge := Duration.nearest_le hlimit
  have hone : 1 ≤ nearest limit := by
    obtain ⟨k, hk⟩ := Rounding.exists_nearest_natCast limit
    rw [hk] at hup ⊢
    have := Nat.cast_lt.mp hup
    exact_mod_cast (by omega : 1 ≤ k)
  refine ⟨steep limit (nearest limit) (.finite 0), check_steep hone (by decide),
    fits_steep hlimit (nearest_nearest _) (onGrid_ofRat 0), rfl, fun hsafe => ?_⟩
  obtain ⟨base, -, hbase, hle, -⟩ := hsafe 1 0
  have hproduct : ((steep limit (nearest limit) (.finite 0)).retry.policy.product 1).toRat? = some (nearest limit) :=
    toRat?_product_steep (by linarith) (by linarith) (nearest_nearest _)
  exact hup.not_ge (RetryPolicy.nearest_le_of_baseDelay rfl hproduct hbase hle)

/-- A longest pause of half of what a duration holds is not safe: it may be doubled. -/
theorem exists_unsafe_of_doubled (hlimit : limit < UInt64.size) (hhalf : 2 ^ 63 ≤ limit) :
    ∃ s : Settings, s.check.isOk = true ∧ s.retry.Fits ∧ s.retry.maxDelaySeconds = limit ∧ ¬ s.retry.policy.IsSafe := by
  have hlarge := Duration.nearest_le hlimit
  have hpoint : nearest (2 ^ 65) = 2 ^ 65 := by decide +kernel
  refine ⟨steep limit (2 ^ 65) (.finite 1), check_steep (by norm_num) (by decide +kernel),
    fits_steep hlimit hpoint fun _ h => by cases h; exact Rounding.nearest_one, rfl, fun hsafe => ?_⟩
  obtain ⟨p, hp⟩ : ∃ p, p = (steep limit (2 ^ 65) (.finite 1)).retry.policy := ⟨_, rfl⟩
  rw [← hp] at hsafe
  have hmax : p.maxDelay = Duration.ofSecs limit := hp ▸ rfl
  have hjitter : p.HasJitter 1 := ⟨hp ▸ rfl, by norm_num, le_rfl, Rounding.nearest_one⟩
  -- the second pause is the longest one, since its product is too large
  have hproduct : (p.product 1).toRat? = some (2 ^ 65) :=
    hp ▸ toRat?_product_steep (by norm_num) (by norm_num) hpoint
  have hbase := RetryPolicy.baseDelay?_of_lt hmax hproduct (hlarge.trans_lt (by norm_num))
  obtain ⟨-, htop⟩ := (hjitter.isSafe_iff hmax hlimit).mp hsafe
  have hlast := htop (hjitter.isRandom_eq.trans rfl) 1 _ hbase
  -- and twice that is no duration
  have hseconds : p.maxDelay.toBinary64 = .finite (nearest limit) := by
    rw [hmax, Duration.toBinary64, Duration.seconds_ofSecs]
  have hlow : 2 ^ 64 ≤ 2 * nearest limit := by
    have := nearest_mono (Nat.cast_le.mpr hhalf : ((2 ^ 63 : Nat) : Rat) ≤ limit)
    rw [show nearest ((2 ^ 63 : Nat) : Rat) = 2 ^ 63 by decide +kernel] at this
    linarith
  have hdouble : (Binary64.finite 2 * .finite (nearest limit)).toRat? = some (nearest (2 * nearest limit)) :=
    toRat?_mul rfl rfl (abs_le.mpr ⟨by linarith, by linarith⟩)
  rw [hjitter.scale_topWord, hseconds, lt_eq hdouble rfl, decide_eq_true_eq] at hlast
  have hround := nearest_mono hlow
  rw [show nearest (2 ^ 64) = 2 ^ 64 by decide +kernel] at hround
  exact hround.not_gt hlast

/-- The pauses of settings that pass their check are safe exactly if no product is what the longest pause is rounded up
to, and the greatest multiple of each pause without its random part is a duration. Whatever the other settings are, that
is so exactly if the longest pause is not rounded up and is less than half of what a duration holds. -/
theorem delays_are_safe_iff {s : Settings} (hcheck : s.check.isOk = true) (hfits : s.retry.Fits) :
    (s.retry.policy.IsSafe ↔
      (∀ attempt, (s.retry.policy.product attempt).toRat? = some (nearest s.retry.maxDelaySeconds) →
        nearest s.retry.maxDelaySeconds ≤ s.retry.maxDelaySeconds) ∧
      (s.retry.policy.isRandom = true → ∀ attempt base, s.retry.policy.baseDelay? attempt = some base →
        (s.retry.policy.scale RetryPolicy.topWord * base.toBinary64).lt (.finite (2 ^ 64)) = true)) ∧
    ((∀ s' : Settings, s'.check.isOk = true → s'.retry.Fits →
        s'.retry.maxDelaySeconds = s.retry.maxDelaySeconds → s'.retry.policy.IsSafe) ↔
      nearest s.retry.maxDelaySeconds ≤ s.retry.maxDelaySeconds ∧ s.retry.maxDelaySeconds < 2 ^ 63) := by
  obtain ⟨j, hj⟩ := exists_jitter hcheck hfits
  refine ⟨hj.isSafe_iff rfl hfits.maxDelaySeconds, fun hsafe => ⟨?_, ?_⟩, ?_⟩
  · by_contra hup
    obtain ⟨s', hcheck', hfits', hsame, hunsafe⟩ := exists_unsafe_of_roundedUp hfits.maxDelaySeconds (not_le.mp hup)
    exact hunsafe (hsafe s' hcheck' hfits' hsame)
  · by_contra hhalf
    obtain ⟨s', hcheck', hfits', hsame, hunsafe⟩ := exists_unsafe_of_doubled hfits.maxDelaySeconds (not_lt.mp hhalf)
    exact hunsafe (hsafe s' hcheck' hfits' hsame)
  · rintro ⟨hround, hhalf⟩ s' hcheck' hfits' hsame
    obtain ⟨j', hj'⟩ := exists_jitter hcheck' hfits'
    rw [← hsame] at hround hhalf
    exact hj'.isSafe rfl hround hhalf

/-- The defaults are safe, as are all settings with their longest pause. -/
theorem delays_are_safe_by_default :
    ({} : Settings).check.isOk = true ∧ ({} : Settings).retry.Fits ∧ ({} : Settings).retry.policy.IsSafe := by
  have hcheck : ({} : Settings).check.isOk = true := by decide +kernel
  have hfits : ({} : Settings).retry.Fits :=
    ⟨by decide, by decide, by decide, fun _ h => by cases h; decide +kernel, onGrid_ofRat _⟩
  obtain ⟨-, hall⟩ := delays_are_safe_iff hcheck hfits
  exact ⟨hcheck, hfits, hall.mpr ⟨by decide +kernel, by decide⟩ {} hcheck hfits rfl⟩

/-- A longest pause that is as long as can be set makes the default random part fail; and a longest pause that is
rounded up is exceeded by a second. -/
theorem delay_fails_longestPause :
    let endless : Settings := { retry := { maxDelaySeconds := UInt64.size - 1 } }
    let rounded : Settings := steep (2 ^ 53 + 3) (2 ^ 53 + 4) (.finite 0)
    endless.check.isOk = true ∧ endless.retry.policy.delay? (UInt32.size - 1) RetryPolicy.topWord = none ∧
      rounded.check.isOk = true ∧ rounded.retry.policy.delay? 1 0 = some (Duration.ofSecs (2 ^ 53 + 4)) ∧
      rounded.retry.policy.maxDelay = Duration.ofSecs (2 ^ 53 + 3) := by
  decide +kernel

end Settings

end Reaper
