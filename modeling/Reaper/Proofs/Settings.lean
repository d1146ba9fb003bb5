import Reaper.Settings

/-!
# Settings that pass their check

The check gives the first reason against settings that it finds. It passes them if they meet all that it asks for
(`Settings.check_isOk_iff`), so what a check is good for can be read off `Settings.IsAccepted`.
-/

namespace Reaper.Settings

/-- All that the check asks for. -/
structure IsAccepted (s : Settings) : Prop where
  interval : s.gcIntervalSeconds ≠ 0
  concurrency : s.maxConcurrentEvaluations ≠ 0
  rate : s.defaultMaxDeletionsPerSecond ≠ 0
  batch : s.defaultBatchSize ≠ 0
  attempts : s.retry.maxAttempts ≠ 0
  factor : s.retry.factor.isFinite = true ∧ s.retry.factor.lt (.finite 1) = false
  jitter : ((Binary64.finite 0).le s.retry.jitter && s.retry.jitter.le (.finite 1)) = true
  renewal : s.election.enabled = true → s.election.renewIntervalSeconds < s.election.leaseDurationSeconds
  address : SocketAddress.isValid s.server.bindAddress = true

theorem isOk_ite_error {p : Prop} [Decidable p] {e : SettingsError} {rest : Except SettingsError Unit} :
    (if p then .error e else rest).isOk = true ↔ ¬ p ∧ rest.isOk = true := by
  by_cases h : p
  · simp [h, Except.isOk, Except.toBool]
  · simp [h]

theorem check_isOk_iff {s : Settings} : s.check.isOk = true ↔ s.IsAccepted := by
  have hfactor : (¬ (!s.retry.factor.isFinite || s.retry.factor.lt (.finite 1)) = true) ↔
      s.retry.factor.isFinite = true ∧ s.retry.factor.lt (.finite 1) = false := by simp
  have hjitter (accepted : Bool) : (¬ (!accepted) = true) ↔ accepted = true := by simp
  have hrenewal :
      (¬ (s.election.enabled && decide (s.election.leaseDurationSeconds ≤ s.election.renewIntervalSeconds)) = true) ↔
        (s.election.enabled = true → s.election.renewIntervalSeconds < s.election.leaseDurationSeconds) := by simp
  have hok : (Except.ok () : Except SettingsError Unit).isOk = true := rfl
  unfold check
  simp only [isOk_ite_error, hfactor, hjitter, hrenewal, hok, and_true]
  constructor
  · rintro ⟨hinterval, hconcurrency, hrate, hbatch, hattempts, hfactor, hjitter, hrenewal, haddress⟩
    exact ⟨hinterval, hconcurrency, hrate, hbatch, hattempts, hfactor, hjitter, hrenewal, haddress⟩
  · rintro ⟨hinterval, hconcurrency, hrate, hbatch, hattempts, hfactor, hjitter, hrenewal, haddress⟩
    exact ⟨hinterval, hconcurrency, hrate, hbatch, hattempts, hfactor, hjitter, hrenewal, haddress⟩

end Reaper.Settings
