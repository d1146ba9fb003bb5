import Reaper.Text.Blank
import Reaper.Time.Rfc3339

/-!
Timestamps in a lenient notation.

The metadata of resources is read with more patience than other timestamps: numbers may lack leading zeros, the year may
have a sign, there may be blanks before numbers and marks, the offset may be `UTC` or do without its colon, and blanks
may follow.
-/

namespace Reaper.Instant

open Text (isDigit digitsOnto)

/-- A text without the blanks at its start. -/
def skipBlanks (cs : List Char) : List Char := cs.dropWhile Text.isBlank

/-- A number of at most `width` digits, after blanks. -/
def number? (width : Nat) (cs : List Char) : Option (Nat × List Char) :=
  let cs := skipBlanks cs
  let ds := (cs.take width).takeWhile isDigit
  if ds.isEmpty then none else some (digitsOnto 0 ds, cs.drop ds.length)

/-- A year: four digits at most, or any number of digits after a sign. -/
def year? (cs : List Char) : Option (Int × List Char) :=
  match skipBlanks cs with
  | '-' :: rest => if rest.head?.any isDigit then (number? rest.length rest).map fun (n, r) => (-(n : Int), r) else none
  | '+' :: rest => if rest.head?.any isDigit then (number? rest.length rest).map fun (n, r) => ((n : Int), r) else none
  | rest => (number? 4 rest).map fun (n, r) => ((n : Int), r)

/-- The characters after a mark, which may come after blanks. -/
def mark? (c : Char) (cs : List Char) : Option (List Char) := after? c (skipBlanks cs)

/-- The hours and minutes of a numeric offset, with any colons and blanks between them. -/
def lenientMagnitude? (cs : List Char) : Option (Int × List Char) := do
  let (h, rest) ← fixedDigits? 2 cs
  let rest := rest.dropWhile fun c => c = ':' || Text.isBlank c
  let (m, rest) ← fixedDigits? 2 rest
  if h ≤ 23 ∧ m ≤ 59 then some ((h * 3600 + m * 60 : Nat), rest) else none

def lenientOffset? (cs : List Char) : Option (Int × List Char) :=
  let cs := skipBlanks cs
  if Text.equalsIgnoringCase (cs.take 3) "UTC" then some (0, cs.drop 3)
  else
    match cs with
    | 'Z' :: rest => some (0, rest)
    | 'z' :: rest => some (0, rest)
    | '+' :: rest => lenientMagnitude? rest
    | '-' :: rest => (lenientMagnitude? rest).map fun (s, r) => (-s, r)
    | '−' :: rest => (lenientMagnitude? rest).map fun (s, r) => (-s, r)
    | _ => none

/-- The instant that the characters of a lenient timestamp denote. -/
def ofLenientChars? (cs : List Char) : Option Instant := do
  let (year, cs) ← year? cs
  let cs ← mark? '-' cs
  let (month, cs) ← number? 2 cs
  let cs ← mark? '-' cs
  let (day, cs) ← number? 2 cs
  let cs ← afterDateMark? cs
  let (hour, cs) ← number? 2 cs
  let cs ← mark? ':' cs
  let (minute, cs) ← number? 2 cs
  let cs ← mark? ':' cs
  let (second, cs) ← number? 2 cs
  let (fraction, cs) ← fraction? cs
  let (offset, cs) ← lenientOffset? cs
  if (skipBlanks cs).isEmpty then ofLocal? ⟨year, month, day⟩ hour minute second fraction offset else none

/-- The instant that a lenient timestamp denotes. -/
def ofLenientText? (s : String) : Option Instant := ofLenientChars? s.toList

end Reaper.Instant
