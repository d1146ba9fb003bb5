import Reaper.Binary64.Notation
import Reaper.Time.Duration

/-!
Token buckets: how many deletions may begin.

A bucket holds at most one second's worth of tokens (and at least one token), and fills continuously. It is brought up
to date only when it is used. All arithmetic goes through a `Rounding`: with rounding to binary64 this is the program
that runs, with `Rounding.exact` it is the bucket of exact arithmetic. Moments are durations since a common start.
-/

namespace Reaper

/-- Why a token was not given, or a rate not taken. -/
inductive LimiterError where
  | cancelled
  | badRate (rate : Binary64)
  deriving DecidableEq, Repr

def LimiterError.message : LimiterError → String
  | cancelled => "Rate limiter wait cancelled"
  | badRate r =>
    "Configuration error: deletion rate must be a positive number, got " ++ Binary64.Layout.message.text r

/-- The state of a bucket. -/
structure Bucket where
  /-- tokens per second -/
  rate : Rat
  capacity : Rat
  tokens : Rat
  /-- the moment up to which tokens have been counted -/
  lastRefill : Duration
  deriving DecidableEq, Repr, Inhabited

namespace Bucket

/-- The rate that a number stands for: positive and finite. -/
def rate? (x : Binary64) : Except LimiterError Rat :=
  match x with
  | .finite q => if 0 < q then .ok q else .error (.badRate x)
  | _ => .error (.badRate x)

/-- What a bucket of a rate holds at most. -/
def capacityOf (rate : Rat) : Rat := if rate ≤ 1 then 1 else rate

/-- What a bucket of a capacity keeps of some tokens. -/
def kept (capacity tokens : Rat) : Rat := if tokens ≤ capacity then tokens else capacity

/-- A full bucket. -/
def full (rate : Rat) (now : Duration) : Bucket :=
  ⟨rate, capacityOf rate, capacityOf rate, now⟩

/-- The time between two moments, nothing when they are in the wrong order. -/
def elapsed (since now : Duration) : Duration := ⟨now.nanos - since.nanos⟩

/-- The bucket brought up to date. -/
def refill (round : Rounding) (now : Duration) (b : Bucket) : Bucket :=
  let gained := round ((elapsed b.lastRefill now).seconds round * b.rate)
  { b with tokens := kept b.capacity (round (b.tokens + gained)), lastRefill := now }

/-- Takes a token; without one, tells in how many seconds there will be one. -/
def take (round : Rounding) (now : Duration) (b : Bucket) : Bucket × Option Rat :=
  let b := b.refill round now
  if 1 ≤ b.tokens then ({ b with tokens := round (b.tokens - 1) }, none)
  else (b, some (round (round (1 - b.tokens) / b.rate)))

/-- How an attempt to take a token went. -/
inductive Taking where
  | granted
  | wait (d : Duration)
  /-- the wait is longer than any duration -/
  | unrepresentable
  deriving DecidableEq, Repr

/-- Takes a token, with the wait as a duration. -/
def request (round : Rounding) (now : Duration) (b : Bucket) : Bucket × Taking :=
  match b.take round now with
  | (b, none) => (b, .granted)
  | (b, some secs) =>
    match Duration.ofSeconds? secs with
    | some d => (b, .wait d)
    | none => (b, .unrepresentable)

/-- At how many milliseconds one after the other a token can be asked for in vain, if nobody else gets one. In a
millisecond a thousandth of the rate comes in, of which rounding takes some. -/
def vainTries (b : Bucket) : Nat := (1024 / b.rate).ceil.toNat

/-- The smallest difference between rates that counts. -/
def rateResolution : Rat := mkRat 1 (1 <<< 52)

/-- Changes the rate. Tokens gained so far are kept, up to the new capacity; a rate that is as good as the present one
changes nothing. -/
def setRate (round : Rounding) (now : Duration) (rate : Rat) (b : Bucket) : Bucket :=
  if (round (b.rate - rate)).abs < rateResolution then b
  else
    let b := b.refill round now
    { b with rate, capacity := capacityOf rate, tokens := kept (capacityOf rate) b.tokens }

/-- The rate in force for a policy: its own if positive, else the default, but at least one. -/
def effectiveRate (configured : Option Int) (default : Nat) : Nat :=
  match configured with
  | some r => if 0 < r then r.toNat else max default 1
  | none => max default 1

end Bucket

end Reaper
