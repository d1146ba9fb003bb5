import Reaper.Json
import Reaper.Text.Blank
import Reaper.Binary64.Reader
import Reaper.Binary64.Notation
import Reaper.Time.Rfc3339

/-!
Tolerant views of scalar values: the integer, the number, the text and the instant that a value can be taken for.
Texts are read after trimming. A number with a fraction counts as the integer toward zero.
-/

namespace Reaper.Json

def int64Range : Int × Int := (-9223372036854775808, 9223372036854775807)

def inInt64 (i : Int) : Bool := int64Range.1 ≤ i && i ≤ int64Range.2

/-- The integer part of a number between the ends of the signed range, both taken as floating-point numbers; the
upper end is one past the greatest integer and stands for it. -/
def truncated? (x : Binary64) : Option Int :=
  let low := Binary64.ofInt int64Range.1
  let high := Binary64.ofInt int64Range.2
  if x.isFinite && low.le x && x.le high then
    x.truncate?.map fun i => min i int64Range.2
  else none

/-- The number a value denotes, whether finite or not. -/
def number? : Json → Option Binary64
  | int i => some (Binary64.ofInt i)
  | float x => some x
  | string s => Binary64.read? (Text.trim s.toList)
  | _ => none

/-- The integer view: whole numbers, numbers cut toward zero, and texts of either. -/
def asInt? : Json → Option Int
  | int i => if inInt64 i then some i else truncated? (Binary64.ofInt i)
  | float x => truncated? x
  | string s =>
    let cs := Text.trim s.toList
    match Text.readInt? int64Range.1 int64Range.2 cs with
    | some i => some i
    | none => (Binary64.read? cs).bind truncated?
  | _ => none

/-- The number view: finite numbers and texts of them. -/
def asNumber? (j : Json) : Option Binary64 := j.number?.filter (·.isFinite)

/-- The text view: texts, numbers and truth values. -/
def asText? : Json → Option String
  | string s => some s
  | int i => some (Text.intText i)
  | float x => some (Binary64.Layout.value.text x)
  | bool b => some (if b then "true" else "false")
  | _ => none

/-- The instant view: timestamps, and seconds since 1970 in any form with an integer view. -/
def asInstant? (j : Json) : Option Instant :=
  let written := match j with
    | string s => Instant.ofChars? (Text.trim s.toList)
    | _ => none
  written.or (j.asInt?.bind Instant.ofUnix?)

end Reaper.Json
