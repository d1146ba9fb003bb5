import Reaper.Dictionary
import Reaper.Text.Blank

/-!
Label selectors.

A selector asks for given labels with given values and for requirements on single keys; all of them have to hold.
`LabelSelector.holds` decides a label map, `LabelSelector.text` writes the selector as the API server reads it. A
requirement that a value be none of a list, or that a key be absent, holds for a missing key.
-/

namespace Reaper

/-- What a requirement asks of a label. -/
inductive LabelOperator where
  | isIn
  | notIn
  | present
  | absent
  deriving DecidableEq, Repr

/-- A requirement on one label. -/
structure LabelRequirement where
  key : String
  operator : LabelOperator
  values : List String
  deriving DecidableEq, Repr

/-- A selector of labels. -/
structure LabelSelector where
  matchLabels : Dictionary String := ∅
  matchExpressions : List LabelRequirement := []
  deriving DecidableEq, Repr, Inhabited

/-- Whether the value at the requirement's key, if there is one, is as required. -/
def LabelRequirement.holds (r : LabelRequirement) (actual : Option String) : Bool :=
  match r.operator with
  | .isIn => actual.any r.values.contains
  | .notIn => !actual.any r.values.contains
  | .present => actual.isSome
  | .absent => actual.isNone

def LabelRequirement.text (r : LabelRequirement) : String :=
  match r.operator with
  | .isIn => r.key ++ " in (" ++ ",".intercalate r.values ++ ")"
  | .notIn => r.key ++ " notin (" ++ ",".intercalate r.values ++ ")"
  | .present => r.key
  | .absent => "!" ++ r.key

namespace LabelSelector

/-- Whether the labels are as the selector asks; no labels count as an empty map. -/
def holds (s : LabelSelector) (labels : Option (Dictionary String)) : Bool :=
  let value (key : String) : Option String := labels.bind (·.get? key)
  s.matchLabels.entries.all (fun e => value e.1 == some e.2) &&
    s.matchExpressions.all (fun r => r.holds (value r.key))

/-- The selector in writing, requirements separated by commas. -/
def text (s : LabelSelector) : String :=
  ",".intercalate (s.matchLabels.entries.map (fun e => e.1 ++ "=" ++ e.2) ++ s.matchExpressions.map (·.text))

end LabelSelector

/-- Exact values of fields, by path. -/
abbrev FieldSelector := Dictionary String

namespace FieldSelector

/-- The fields that the API server can select by for every kind of resource. -/
def serverFields : List String := ["metadata.name", "metadata.namespace"]

/-- A path without its outer blanks and its leading dots. -/
def bareField (path : String) : String :=
  String.ofList ((Text.trim path.toList).dropWhile (· == '.'))

/-- The part of the selector that the API server understands, in writing. -/
def text (s : FieldSelector) : String :=
  ",".intercalate (s.entries.filterMap fun e =>
    if serverFields.contains (bareField e.1) then some (bareField e.1 ++ "=" ++ e.2) else none)

end FieldSelector

end Reaper
