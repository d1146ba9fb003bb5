import Reaper.Fault
import Reaper.Retry
import Reaper.Time.Millis

/-!
The life of one deletion that is tried until it is decided.

A call is made, answered, and perhaps made again after a pause. `RetryState` says where the life stands, and two
functions move it on: `start` when the call could be made, and `answered` when a reply has come. Cancellation is looked
at before each call and throughout each pause, never while a call is under way. `Retry.run` puts the two together along
a clock.
-/

namespace Reaper

/-- The server's reply to a deletion. -/
abbrev Reply := Except Fault Unit

/-- How a deletion ended. -/
inductive DeleteOutcome where
  | deleted (attempts : Nat)
  | alreadyGone (attempts : Nat)
  | failedForGood (attempts : Nat) (fault : Fault)
  | retriesExhausted (attempts : Nat) (fault : Fault)
  | cancelled (attempts : Nat)
  deriving DecidableEq, Repr

namespace DeleteOutcome

/-- The number of calls made. -/
def attempts : DeleteOutcome → Nat
  | deleted n => n
  | alreadyGone n => n
  | failedForGood n _ => n
  | retriesExhausted n _ => n
  | cancelled n => n

/-- The resource is gone. -/
def succeeded : DeleteOutcome → Bool
  | deleted _ | alreadyGone _ => true
  | _ => false

/-- The wording of an outcome that is a failure. -/
def message : DeleteOutcome → String
  | failedForGood n f => "delete failed permanently after " ++ Text.natText n ++ " attempt(s): " ++ f.text
  | retriesExhausted n f => "delete still failing after " ++ Text.natText n ++ " attempts: " ++ f.text
  | cancelled n => "delete cancelled after " ++ Text.natText n ++ " attempt(s)"
  | deleted _ => ""
  | alreadyGone _ => ""

end DeleteOutcome

/-- Where the life of a deletion stands; the number is that of the calls made. -/
inductive RetryState where
  | calling (attempts : Nat)
  | pausing (attempts : Nat)
  | done (outcome : DeleteOutcome)
  deriving DecidableEq, Repr

namespace RetryState

/-- Before a call: it is made unless the deletion has been cancelled. -/
def start (cancelled : Bool) (attempts : Nat) : RetryState :=
  if cancelled then .done (.cancelled attempts) else .calling (attempts + 1)

/-- After the reply to call number `attempts`. -/
def answered (limit attempts : Nat) (reply : Reply) : RetryState :=
  match reply with
  | .ok () => .done (.deleted attempts)
  | .error f =>
    match f.classify with
    | .alreadyGone => .done (.alreadyGone attempts)
    | .fatal => .done (.failedForGood attempts f)
    | .retryable => if limit ≤ attempts then .done (.retriesExhausted attempts f) else .pausing attempts

end RetryState

namespace Retry

/-- What a run leaves: the times of its calls, its end, and how it ended. None of the outcomes when a pause has no
duration. -/
structure Trace where
  calls : List Millis
  finish : Millis
  outcome : Option DeleteOutcome
  deriving Repr

/-- The cancellation has come by `now`. -/
def cancelledBy (cancelAt : Option Millis) (now : Millis) : Bool := cancelAt.any (· ≤ now)

/-- Makes the calls that are left. `pauses n` is the pause after call `n + 1`, `replies n` the reply to it, and
`latency n` the time that the call takes. -/
def runFrom (limit : Nat) (pauses : Nat → Option Duration) (replies : Nat → Reply) (latency : Nat → Duration)
    (cancelAt : Option Millis) : (left : Nat) → (attempts : Nat) → (now : Millis) → (calls : List Millis) → Trace
  | 0, _, now, calls => ⟨calls.reverse, now, none⟩
  | left + 1, attempts, now, calls =>
    match RetryState.start (cancelledBy cancelAt now) attempts with
    | .calling n =>
      let answerTime := now.after (latency attempts)
      let calls := now :: calls
      match RetryState.answered limit n (replies attempts) with
      | .pausing n =>
        match pauses attempts with
        | none => ⟨calls.reverse, answerTime, none⟩
        | some pause =>
          let wake := answerTime.after pause
          match cancelAt with
          | some c =>
            if c ≤ wake then ⟨calls.reverse, max c answerTime, some (.cancelled n)⟩
            else runFrom limit pauses replies latency cancelAt left n wake calls
          | none => runFrom limit pauses replies latency cancelAt left n wake calls
      | .done o => ⟨calls.reverse, answerTime, some o⟩
      | _ => ⟨calls.reverse, answerTime, none⟩
    | .done o => ⟨calls.reverse, now, some o⟩
    | _ => ⟨calls.reverse, now, none⟩

/-- A deletion from its first call on. -/
def runWith (p : RetryPolicy) (pauses : Nat → Option Duration) (replies : Nat → Reply) (latency : Nat → Duration)
    (cancelAt : Option Millis) (now : Millis) : Trace :=
  runFrom p.limit pauses replies latency cancelAt (p.limit + 1) 0 now []

/-- A deletion of which all calls take the same time. -/
def run (p : RetryPolicy) (pauses : Nat → Option Duration) (replies : Nat → Reply) (latency : Duration)
    (cancelAt : Option Millis) (now : Millis) : Trace :=
  runWith p pauses replies (fun _ => latency) cancelAt now

end Retry

end Reaper
