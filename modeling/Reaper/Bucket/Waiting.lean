import Reaper.Bucket
import Reaper.Retry.Call

/-!
Waiting for tokens along a clock of milliseconds.

Who finds no token sleeps for as long as the missing part takes to come in, and tries again. A wait that no duration
holds is a failure of its own.
-/

namespace Reaper.Bucket

def takeAt (now : Millis) (b : Bucket) : Bucket × Taking := b.request Rounding.nearest now.moment

/-- How waiting for a token ended, and when. -/
inductive Acquired where
  | at (now : Millis)
  | cancelled (now : Millis)
  | unrepresentable
  /-- it has not ended: so many tries were made, and the next one is due -/
  | unfinished (now : Millis)
  deriving DecidableEq, Repr

/-- Tries and sleeps until a token is there or the cancellation comes. `fuel` bounds the number of tries. -/
def acquireFrom (cancelAt : Option Millis) : (fuel : Nat) → Millis → Bucket → Bucket × Acquired
  | 0, now, b => (b, .unfinished now)
  | fuel + 1, now, b =>
    if Retry.cancelledBy cancelAt now then (b, .cancelled now)
    else
      match b.takeAt now with
      | (b, .granted) => (b, .at now)
      | (b, .unrepresentable) => (b, .unrepresentable)
      | (b, .wait d) =>
        let wake := Millis.reaching (now.moment.waitEnd d)
        match cancelAt with
        | some c => if c ≤ wake then (b, .cancelled c) else acquireFrom cancelAt fuel wake b
        | none => acquireFrom cancelAt fuel wake b

/-- The number of tries after which a wait is no longer followed. A refilled bucket has the missing token after one
sleep, or after a second one when rounding has kept a trifle back. -/
def tries : Nat := 1000

/-- Waits for a token from a millisecond on. -/
def acquire (cancelAt : Option Millis) (now : Millis) (b : Bucket) : Bucket × Acquired :=
  acquireFrom cancelAt tries now b

/-- Asks for a number of tokens one after the other at the same time. Tells how many there were; none when a wait has no
duration. -/
def takeMany (now : Millis) : Nat → Bucket → Option (Nat × Bucket)
  | 0, b => some (0, b)
  | n + 1, b =>
    match b.takeAt now with
    | (_, .unrepresentable) => none
    | (b, taking) => (takeMany now n b).map fun (granted, b) => (granted + if taking = .granted then 1 else 0, b)

/-- Waits for a number of tokens one after the other. Tells how each wait ended; none when one has no duration, or has
not ended. -/
def acquireMany (cancelAt : Option Millis) : Nat → Millis → Bucket → Option (List Acquired × Millis × Bucket)
  | 0, now, b => some ([], now, b)
  | n + 1, now, b =>
    match b.acquire cancelAt now with
    | (_, .unrepresentable) | (_, .unfinished _) => none
    | (b, .at t) => (acquireMany cancelAt n t b).map fun (ends, rest) => (.at t :: ends, rest)
    | (b, .cancelled t) => (acquireMany cancelAt n t b).map fun (ends, rest) => (.cancelled t :: ends, rest)

end Reaper.Bucket
