import Reaper.Binary64.Notation
import Reaper.Settings.SocketAddress
import Reaper.Time.Duration

/-!
Settings of the controller.

Every setting has a default. `Settings.check` finds the first reason why settings cannot be used, in a fixed order, and
`SettingsError.message` words it.
-/

namespace Reaper

/-- How deletions are retried. -/
structure RetrySettings where
  maxAttempts : Nat := 5
  initialMillis : Nat := 100
  factor : Binary64 := .finite 2
  jitter : Binary64 := .ofRat (1 / 10)
  maxDelaySeconds : Nat := 30
  deriving DecidableEq, Repr

/-- How watches are opened. -/
structure WatchSettings where
  /-- how long a new watch may take to fill its cache -/
  readyTimeoutSeconds : Nat := 30
  deriving DecidableEq, Repr

/-- How replicas elect a leader. -/
structure ElectionSettings where
  enabled : Bool := true
  leaseName : String := "gc-controller-leader"
  leaseNamespace : String := "default"
  leaseDurationSeconds : Nat := 15
  renewIntervalSeconds : Nat := 5
  deriving DecidableEq, Repr

/-- Where the health endpoint listens. -/
structure ServerSettings where
  bindAddress : String := "0.0.0.0:8080"
  deriving DecidableEq, Repr

/-- The settings of the controller. -/
structure Settings where
  /-- seconds between two passes of one policy -/
  gcIntervalSeconds : Nat := 60
  maxConcurrentEvaluations : Nat := 5
  /-- for policies that do not set a rate -/
  defaultMaxDeletionsPerSecond : Nat := 10
  /-- for policies that do not set a batch size -/
  defaultBatchSize : Nat := 50
  watchNamespace : Option String := none
  /-- never delete anything -/
  dryRun : Bool := false
  retry : RetrySettings := {}
  watch : WatchSettings := {}
  election : ElectionSettings := {}
  server : ServerSettings := {}
  deriving DecidableEq, Repr

/-- Why settings cannot be used. -/
inductive SettingsError where
  | zeroInterval
  | zeroConcurrency
  | zeroRate
  | zeroBatch
  | noAttempts
  | factorTooSmall (factor : Binary64)
  | jitterOutOfRange (jitter : Binary64)
  | renewalTooSlow
  | badAddress (address : String)
  deriving DecidableEq, Repr

def SettingsError.message : SettingsError → String
  | zeroInterval => "gcIntervalSeconds must be greater than zero"
  | zeroConcurrency => "maxConcurrentEvaluations must be greater than zero"
  | zeroRate => "defaultMaxDeletionsPerSecond must be greater than zero"
  | zeroBatch => "defaultBatchSize must be greater than zero"
  | noAttempts => "backoff.maxAttempts must be at least 1"
  | factorTooSmall f => "backoff.factor must be >= 1.0, got " ++ Binary64.Layout.message.text f
  | jitterOutOfRange j => "backoff.jitter must be within [0, 1], got " ++ Binary64.Layout.message.text j
  | renewalTooSlow => "leaderElection.renewIntervalSeconds must be shorter than leaseDurationSeconds"
  | badAddress a => "server.bindAddress '" ++ a ++ "' is not a socket address"

namespace Settings

/-- The defaults; the lease lies in the namespace that the controller runs in, if that is known. -/
def initial (podNamespace : Option String) : Settings :=
  { election := { leaseNamespace := podNamespace.getD "default" } }

/-- The first reason why the settings cannot be used. -/
def check (s : Settings) : Except SettingsError Unit :=
  if s.gcIntervalSeconds = 0 then .error .zeroInterval
  else if s.maxConcurrentEvaluations = 0 then .error .zeroConcurrency
  else if s.defaultMaxDeletionsPerSecond = 0 then .error .zeroRate
  else if s.defaultBatchSize = 0 then .error .zeroBatch
  else if s.retry.maxAttempts = 0 then .error .noAttempts
  else if !s.retry.factor.isFinite || s.retry.factor.lt (.finite 1) then .error (.factorTooSmall s.retry.factor)
  else if !((Binary64.finite 0).le s.retry.jitter && s.retry.jitter.le (.finite 1)) then
    .error (.jitterOutOfRange s.retry.jitter)
  else if s.election.enabled && s.election.leaseDurationSeconds ≤ s.election.renewIntervalSeconds then
    .error .renewalTooSlow
  else if !SocketAddress.isValid s.server.bindAddress then .error (.badAddress s.server.bindAddress)
  else .ok ()

/-- The time between two passes of one policy. -/
def gcInterval (s : Settings) : Duration := Duration.ofSecs s.gcIntervalSeconds

/-- How long a new watch may take. -/
def readyTimeout (s : Settings) : Duration := Duration.ofSecs s.watch.readyTimeoutSeconds

end Settings

end Reaper
