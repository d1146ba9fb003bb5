import Reaper.Time.Duration
import Reaper.Time.Calendar

/-!
Instants of wall-clock time.

An instant is a second counted from the start of 1970 and the nanoseconds past it. Within a leap second the second is
the one before it and the nanoseconds are a billion or more, so the lexicographic order is the order of time. The
seconds of the years -262143 to 262142 are representable; a sum outside of them is absent.
-/

namespace Reaper

/-- A point of time: seconds since the start of 1970, and nanoseconds (a billion or more in a leap second). -/
structure Instant where
  secs : Int
  nanos : Nat
  deriving DecidableEq, Repr, Inhabited

namespace Instant

/-- Seconds in a day. -/
def perDay : Int := 86400

def firstYear : Int := -262143

def lastYear : Int := 262142

def firstSecond : Int := (Date.daysBeforeYear firstYear - Date.unixEpoch) * perDay

def lastSecond : Int := (Date.daysBeforeYear (lastYear + 1) - Date.unixEpoch) * perDay - 1

def inRange (secs : Int) : Bool := firstSecond ≤ secs && secs ≤ lastSecond

/-- Earlier in time. -/
def before (a b : Instant) : Prop := a.secs < b.secs ∨ a.secs = b.secs ∧ a.nanos < b.nanos

instance : LT Instant := ⟨before⟩
instance : LE Instant := ⟨fun a b => ¬ before b a⟩
instance (a b : Instant) : Decidable (a < b) := inferInstanceAs (Decidable (_ ∨ _ ∧ _))
instance (a b : Instant) : Decidable (a ≤ b) := inferInstanceAs (Decidable (¬ (_ ∨ _ ∧ _)))

/-- The start of a second counted from 1970. -/
def ofUnix? (secs : Int) : Option Instant := if inRange secs then some ⟨secs, 0⟩ else none

/-- The instant of a local date and time of day at an offset from UTC. The date must be one of the calendar and in a
representable year, the time one of the day or a leap second, and the instant representable. -/
def ofLocal? (date : Date) (hour minute second fraction : Nat) (offset : Int) : Option Instant :=
  if date.isValid && firstYear ≤ date.year && date.year ≤ lastYear && hour ≤ 23 && minute ≤ 59 && second ≤ 60 then
    let inDay : Int := hour * 3600 + minute * 60 + (min second 59 : Nat)
    let secs := (date.toDays - Date.unixEpoch) * perDay + inDay - offset
    if inRange secs then some ⟨secs, if second = 60 then Duration.perSecond + fraction else fraction⟩ else none
  else none

/-- The instant so many nanoseconds later, or earlier for a negative number. From within a leap second a later second
counts from the second before it, an earlier one from the second after it. -/
def add? (t : Instant) (span : Int) : Option Instant :=
  let wholeSecs := span.tdiv Duration.perSecond
  let fraction := span.tmod Duration.perSecond
  let leap : Bool := Duration.perSecond ≤ t.nanos
  let leavesForward : Bool := 0 < wholeSecs || (0 < fraction && 2 * (Duration.perSecond : Int) ≤ t.nanos + fraction)
  if leap && !leavesForward && 0 ≤ wholeSecs then
    some ⟨t.secs, (t.nanos + fraction).toNat⟩
  else
    let (secs, nanos) : Int × Int :=
      if leap then
        if leavesForward then (t.secs, t.nanos - Duration.perSecond) else (t.secs + 1, t.nanos - Duration.perSecond)
      else (t.secs, t.nanos)
    let total := nanos + fraction
    let secs := secs + wholeSecs + total / Duration.perSecond
    if inRange secs then some ⟨secs, (total % Duration.perSecond).toNat⟩ else none

def addSeconds? (t : Instant) (s : Int) : Option Instant := t.add? (s * Duration.perSecond)

/-- The nanoseconds from `b` to `a`. A leap second between two times of day is counted when the later one in the day
is past it. -/
def since (a b : Instant) : Int :=
  let dayA := a.secs / perDay
  let dayB := b.secs / perDay
  let inDayA := a.secs % perDay
  let inDayB := b.secs % perDay
  let adjust : Int :=
    if inDayB < inDayA then (if Duration.perSecond ≤ b.nanos then 1 else 0)
    else if inDayA < inDayB then (if Duration.perSecond ≤ a.nanos then -1 else 0)
    else 0
  ((dayA - dayB) * perDay + (inDayA - inDayB) + adjust) * Duration.perSecond + (a.nanos - b.nanos)

/-- The time elapsed since `b`, nothing when `b` lies ahead. -/
def elapsedSince (a b : Instant) : Duration := ⟨(a.since b).toNat⟩

end Instant

end Reaper
