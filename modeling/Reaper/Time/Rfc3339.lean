import Reaper.Time.Instant

/-!
Timestamps as text: `2025-03-01T12:00:00Z`.

`Instant.ofText?` reads a date, a `T` or a space, a time with an optional fraction, and an offset; a second of 60 is a
leap second. `Instant.toSecondText` writes whole seconds in UTC with a `Z`, the form of resource metadata;
`Instant.toMicroText` adds six places, the form of leases and events;
`Instant.toText` writes the fraction with as many groups of three digits as it needs and the offset as `+00:00`, the
form of a policy's status.
-/

namespace Reaper.Instant

open Text (isDigit digitsOnto)

/-- The number in exactly `width` digits that come next. -/
def fixedDigits? (width : Nat) (cs : List Char) : Option (Nat × List Char) :=
  let ds := cs.take width
  if ds.length = width ∧ ds.all isDigit then some (digitsOnto 0 ds, cs.drop width) else none

def after? (c : Char) : List Char → Option (List Char)
  | d :: rest => if d = c then some rest else none
  | [] => none

/-- The characters after the mark between date and time. -/
def afterDateMark? : List Char → Option (List Char)
  | c :: rest => if c = 'T' ∨ c = 't' ∨ c = ' ' then some rest else none
  | [] => none

/-- An optional fraction in nanoseconds; digits after the ninth have no effect. -/
def fraction? : List Char → Option (Nat × List Char)
  | '.' :: rest =>
    let ds := rest.takeWhile isDigit
    if ds.isEmpty then none
    else
      let nine := (ds ++ List.replicate 9 '0').take 9
      some (digitsOnto 0 nine, rest.dropWhile isDigit)
  | cs => some (0, cs)

/-- Hours and minutes of an offset, in seconds. -/
def offsetMagnitude? (cs : List Char) : Option (Int × List Char) := do
  let (h, rest) ← fixedDigits? 2 cs
  let rest ← after? ':' rest
  let (m, rest) ← fixedDigits? 2 rest
  if h ≤ 23 ∧ m ≤ 59 then some ((h * 3600 + m * 60 : Nat), rest) else none

/-- The offset from UTC in seconds; the mathematical minus sign is read like the hyphen. -/
def offset? : List Char → Option (Int × List Char)
  | 'Z' :: rest => some (0, rest)
  | 'z' :: rest => some (0, rest)
  | '+' :: rest => offsetMagnitude? rest
  | '-' :: rest => (offsetMagnitude? rest).map fun (s, r) => (-s, r)
  | '−' :: rest => (offsetMagnitude? rest).map fun (s, r) => (-s, r)
  | _ => none

/-- The instant that the characters of a timestamp denote. -/
def ofChars? (cs : List Char) : Option Instant := do
  let (year, cs) ← fixedDigits? 4 cs
  let cs ← after? '-' cs
  let (month, cs) ← fixedDigits? 2 cs
  let cs ← after? '-' cs
  let (day, cs) ← fixedDigits? 2 cs
  let cs ← afterDateMark? cs
  let (hour, cs) ← fixedDigits? 2 cs
  let cs ← after? ':' cs
  let (minute, cs) ← fixedDigits? 2 cs
  let cs ← after? ':' cs
  let (second, cs) ← fixedDigits? 2 cs
  let (fraction, cs) ← fraction? cs
  let (offset, cs) ← offset? cs
  if cs.isEmpty then ofLocal? ⟨year, month, day⟩ hour minute second fraction offset else none

def ofText? (s : String) : Option Instant := ofChars? s.toList

/-- A year in four digits; with a sign before the year zero and after the year 9999. -/
def yearText (y : Int) : String :=
  if 0 ≤ y ∧ y ≤ 9999 then Text.paddedText 4 y.toNat
  else (if y < 0 then "-" else "+") ++ Text.paddedText 4 y.natAbs

/-- Date and time in UTC down to the second; a leap second is the second 60. -/
def dateTimeText (t : Instant) : String :=
  let date := Date.ofDays (t.secs / perDay + Date.unixEpoch)
  let inDay := (t.secs % perDay).toNat
  let second := inDay % 60 + (if Duration.perSecond ≤ t.nanos then 1 else 0)
  yearText date.year ++ "-" ++ Text.paddedText 2 date.month ++ "-" ++ Text.paddedText 2 date.day ++ "T" ++
    Text.paddedText 2 (inDay / 3600) ++ ":" ++ Text.paddedText 2 (inDay / 60 % 60) ++ ":" ++ Text.paddedText 2 second

/-- Whole seconds in UTC, marked with a `Z`; the fraction is cut off. -/
def toSecondText (t : Instant) : String := t.dateTimeText ++ "Z"

/-- Six places of the second in UTC, marked with a `Z`; what is finer is cut off. -/
def toMicroText (t : Instant) : String :=
  t.dateTimeText ++ "." ++ Text.paddedText 6 (t.nanos % Duration.perSecond / 1000) ++ "Z"

/-- A fraction with no digits, or with three, six or nine. -/
def fractionText (nanos : Nat) : String :=
  if nanos = 0 then ""
  else if nanos % 1000000 = 0 then "." ++ Text.paddedText 3 (nanos / 1000000)
  else if nanos % 1000 = 0 then "." ++ Text.paddedText 6 (nanos / 1000)
  else "." ++ Text.paddedText 9 nanos

/-- Time in UTC with its fraction and a numeric offset. -/
def toText (t : Instant) : String :=
  t.dateTimeText ++ fractionText (t.nanos % Duration.perSecond) ++ "+00:00"

end Reaper.Instant
