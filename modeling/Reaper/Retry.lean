import Reaper.Binary64
import Reaper.Time.Duration
import Reaper.Settings

/-!
Pauses between the attempts of a call.

The pause after a failed attempt is the first pause times a power of the growth factor, at most the longest pause. It
is then scaled by a random amount around one, and again at most the longest pause. The pause depends on the number of
the attempt alone, so randomness does not add up. A number of seconds that no duration holds makes the pause fail.
-/

namespace Reaper

/-- The number of seconds of a duration. -/
def Duration.toBinary64 (d : Duration) : Binary64 := .finite (d.seconds Rounding.nearest)

/-- The duration of a number of seconds; none for what is negative, too large, or no number. -/
def Duration.ofBinary64? (x : Binary64) : Option Duration := x.toRat?.bind Duration.ofSeconds?

/-- When and how often a failed call is tried again. -/
structure RetryPolicy where
  maxAttempts : Nat := 5
  initial : Duration := Duration.ofMillis 100
  factor : Binary64 := .finite 2
  /-- the relative size of the random part -/
  jitter : Binary64 := .ofRat (1 / 10)
  maxDelay : Duration := Duration.ofSecs 30
  deriving DecidableEq, Repr

def RetrySettings.policy (s : RetrySettings) : RetryPolicy :=
  { maxAttempts := s.maxAttempts
    initial := Duration.ofMillis s.initialMillis
    factor := s.factor
    jitter := s.jitter
    maxDelay := Duration.ofSecs s.maxDelaySeconds }

namespace RetryPolicy

/-- The greatest exponent of the growth factor. -/
def exponentLimit : Nat := (1 <<< 31) - 1

/-- The pause after attempt `attempt` (counted from zero) without its random part. A product that is negative or no
number, or above the longest pause, gives the longest pause. -/
def baseDelay? (p : RetryPolicy) (attempt : Nat) : Option Duration :=
  let secs := p.initial.toBinary64 * p.factor.power (min attempt exponentLimit)
  if !secs.isFinite || secs.lt (.finite 0) || p.maxDelay.toBinary64.lt secs then some p.maxDelay
  else Duration.ofBinary64? secs

/-- The size of the random part, brought between zero and one. What is no number stays so. -/
def spread (p : RetryPolicy) : Binary64 :=
  if p.jitter.lt (.finite 0) then .finite 0
  else if (Binary64.finite 1).lt p.jitter then .finite 1
  else p.jitter

def isRandom (p : RetryPolicy) : Bool := !p.spread.same (.finite 0)

/-- One less than two, by one step of the grid below two. -/
def belowTwo : Binary64 := .ofRat (2 - mkRat 1 (1 <<< 52))

/-- The number between one and two whose fraction is the upper fifty-two bits of a word. -/
def betweenOneAndTwo (word : Nat) : Binary64 :=
  .ofRat (1 + mkRat (word % UInt64.size / (1 <<< 12) : Nat) (1 <<< 52))

/-- The next number below a positive one. -/
def stepDown (x : Binary64) : Binary64 :=
  match x with
  | .finite q =>
    let n := q.num.natAbs
    let u := Rounding.stepExponent n q.den
    let m := Rounding.steps n q.den u
    -- below a power of two the steps are half as long
    if m = 1 <<< 52 ∧ -1074 < u then .finite (Rounding.scaled (2 * m - 1) (u - 1))
    else .finite (Rounding.scaled (m - 1) u)
  | other => other

/-- The width of the interval from `low` to `high`, shortened until its image does not pass `high`. -/
def fittedScale (low high unit : Binary64) : Nat → Binary64 → Binary64
  | 0, scale => scale
  | fuel + 1, scale =>
    if high.lt (scale * unit + low) then fittedScale low high unit fuel (stepDown scale) else scale

/-- The number between minus `s` and `s` that a random word stands for. -/
def symmetric (s : Binary64) (word : Nat) : Binary64 :=
  let low := -s
  let unit := belowTwo - .finite 1
  let scale := fittedScale low s unit 64 ((s - low) / unit)
  (betweenOneAndTwo word - .finite 1) * scale + low

/-- The pause after attempt `attempt` with its random part drawn by a word. -/
def delay? (p : RetryPolicy) (attempt word : Nat) : Option Duration := do
  let base ← p.baseDelay? attempt
  if !p.isRandom then some base
  else if p.spread = .nan then none
  else
    let scale := Binary64.finite 1 + symmetric p.spread word
    let scaled ← Duration.ofBinary64? (scale * base.toBinary64)
    some (min scaled p.maxDelay)

/-- How often a call is made at most. -/
def limit (p : RetryPolicy) : Nat := max p.maxAttempts 1

end RetryPolicy

end Reaper
