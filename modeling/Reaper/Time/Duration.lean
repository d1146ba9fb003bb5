import Reaper.Binary64.Rounding
import Reaper.Text.Digits

/-!
Lengths of time in whole nanoseconds.

A duration holds at most `2 ^ 64` seconds less a nanosecond, so making one from a number of seconds can fail
(`ofSeconds?`): for negative numbers and for numbers too large. `seconds` gives the number back under a rounding.
-/

namespace Reaper

/-- A length of time. -/
structure Duration where
  nanos : Nat
  deriving DecidableEq, Repr, Inhabited

namespace Duration

/-- Nanoseconds in a second. -/
def perSecond : Nat := 1000000000

/-- Nanoseconds in a millisecond. -/
def perMilli : Nat := 1000000

/-- The first number of seconds that a duration cannot hold. -/
def secondsLimit : Nat := 1 <<< 64

instance : LE Duration := ⟨fun a b => a.nanos ≤ b.nanos⟩
instance : LT Duration := ⟨fun a b => a.nanos < b.nanos⟩
instance (a b : Duration) : Decidable (a ≤ b) := inferInstanceAs (Decidable (a.nanos ≤ b.nanos))
instance (a b : Duration) : Decidable (a < b) := inferInstanceAs (Decidable (a.nanos < b.nanos))
instance : Min Duration := ⟨fun a b => ⟨min a.nanos b.nanos⟩⟩

def zero : Duration := ⟨0⟩

def ofSecs (s : Nat) : Duration := ⟨s * perSecond⟩

def ofMillis (ms : Nat) : Duration := ⟨ms * perMilli⟩

def secs (d : Duration) : Nat := d.nanos / perSecond

def subNanos (d : Duration) : Nat := d.nanos % perSecond

/-- The number of seconds: whole seconds and the fraction, each rounded, then added. -/
def seconds (round : Rounding) (d : Duration) : Rat :=
  round (round (d.secs : Rat) + round (mkRat d.subNanos perSecond))

/-- The duration closest to a number of seconds, a half nanosecond to the even side; none below zero or past the
limit. -/
def ofSeconds? (q : Rat) : Option Duration :=
  if q < 0 then none
  else
    let n := Rounding.quotient (q.num.natAbs * perSecond) q.den
    if n < secondsLimit * perSecond then some ⟨n⟩ else none

/-- The nine digits of a fraction without the zeros at their end. -/
def fractionDigits (width n : Nat) : List Char :=
  let ds := Text.digitsOf n
  let padded := List.replicate (width - ds.length) '0' ++ ds
  (padded.reverse.dropWhile (· == '0')).reverse

/-- A whole part and a fraction of `width` digits, with a unit. -/
def withUnit (whole fraction width : Nat) (unit : String) : String :=
  match fractionDigits width fraction with
  | [] => Text.natText whole ++ unit
  | ds => Text.natText whole ++ "." ++ String.ofList ds ++ unit

/-- The text of a duration in the largest unit that gives a whole part: `1.5s`, `250ms`, `7µs`, `0ns`. -/
def text (d : Duration) : String :=
  if perSecond ≤ d.nanos then withUnit d.secs d.subNanos 9 "s"
  else if perMilli ≤ d.nanos then withUnit (d.nanos / perMilli) (d.nanos % perMilli) 6 "ms"
  else if 1000 ≤ d.nanos then withUnit (d.nanos / 1000) (d.nanos % 1000) 3 "µs"
  else Text.natText d.nanos ++ "ns"

/-- The difference, if the second is not longer than the first. -/
def sub? (a b : Duration) : Option Duration :=
  if b.nanos ≤ a.nanos then some ⟨a.nanos - b.nanos⟩ else none

end Duration

end Reaper
