import Reaper.Text.Quoted

/-!
Faults of calls to the API server, and what they mean for a deletion.

A fault is a status that the server answered with, a failure to reach it, a broken stream, an answer that cannot be
read, or a request that cannot be sent. `Fault.classify` sorts faults for deletions: a resource that is gone counts as
deleted, what looks like a passing trouble is tried again, and everything else is final.
-/

namespace Reaper

/-- Why a call failed. -/
inductive Fault where
  /-- the server's own answer -/
  | api (status message reason : String) (code : Nat)
  /-- no connection -/
  | service (text : String)
  /-- a stream broke off -/
  | events (text : String)
  /-- a line of a stream has no end -/
  | line
  /-- an answer that is not of the expected form -/
  | undecodable
  /-- a request that could not be formed -/
  | unsendable (text : String)
  deriving DecidableEq, Repr

/-- What a fault means for a deletion. -/
inductive FaultClass where
  | alreadyGone
  | retryable
  | fatal
  deriving DecidableEq, Repr

namespace Fault

def text : Fault → String
  | api status message reason code =>
    "ApiError: " ++ message ++ ": " ++ reason ++ " (ErrorResponse \x7b status: " ++ Text.quoted status ++
      ", message: " ++ Text.quoted message ++ ", reason: " ++ Text.quoted reason ++ ", code: " ++
      Text.natText code ++ " \x7d)"
  | service t => "ServiceError: " ++ t
  | events t => "Error reading events stream: " ++ t
  | line => "Error finding newline character"
  | undecodable => "Error deserializing response"
  | unsendable t => "Failed to build request: " ++ t

/-- The status codes of passing troubles. -/
def retryableCodes : List Nat := [408, 429, 504]

/-- The reasons of passing troubles. -/
def retryableReasons : List String := ["Timeout", "ServerTimeout", "TooManyRequests"]

/-- What the fault means for a deletion. Not found comes first, whatever its reason. -/
def classify : Fault → FaultClass
  | api _ _ reason code =>
    if code = 404 then .alreadyGone
    else if retryableCodes.contains code || retryableReasons.contains reason then .retryable
    else .fatal
  | service _ => .retryable
  | events _ => .retryable
  | line => .fatal
  | undecodable => .fatal
  | unsendable _ => .fatal

end Fault

end Reaper
