/-!
Classes of characters as tables of ranges.

A table lists the first and the last code point of each range, the ranges in ascending order and apart from each other,
so that `contains` looks only at the first one that does not end before the number.
-/

namespace Reaper.Text

/-- Ranges of code points, each with its first and its last. -/
structure CodeRanges where
  toList : List (Nat × Nat)

namespace CodeRanges

/-- A code point lies in one of the ranges. -/
def contains (t : CodeRanges) (n : Nat) : Bool :=
  match t.toList.find? fun r => n ≤ r.2 with
  | some r => r.1 ≤ n
  | none => false

end CodeRanges

end Reaper.Text
