import Reaper.Bucket
import Reaper.Fault
import Reaper.Policy.Target

/-!
Why a policy cannot be served.
-/

namespace Reaper

/-- Why a watch could not be opened. The texts name the target. -/
inductive WatchError where
  /-- the first list was refused -/
  | refused (target : String) (fault : Fault)
  /-- the cache was not filled in time -/
  | notReady (target : String) (timeout : Duration)
  | stopped (target : String)
  deriving DecidableEq, Repr

def WatchError.message : WatchError → String
  | refused target fault => "initial list of " ++ target ++ " failed: " ++ fault.text
  | notReady target timeout => "cache for " ++ target ++ " not ready after " ++ timeout.text
  | stopped target => "watch for " ++ target ++ " stopped before its cache was ready"

/-- Why a policy cannot be served. -/
inductive ServeError where
  | api (fault : Fault)
  | missingKey (key : String)
  | target (error : TargetError)
  | watch (error : WatchError)
  | limiter (error : LimiterError)
  deriving DecidableEq, Repr

def ServeError.message : ServeError → String
  | api fault => "Kubernetes API error: " ++ fault.text
  | missingKey key => "Missing object key: " ++ key
  | target error => "Invalid policy: " ++ error.message
  | watch error => "Watch error: " ++ error.message
  | limiter error => "Rate limiter error: " ++ error.message

end Reaper
