import Reaper.Policy
import Reaper.Path
import Reaper.View

/-!
Conditions on resources and their documents.

`Scalar.equals` compares a value with a text: the same text, or numbers closer than the spacing of numbers at one.
A condition on something the resource does not have is false, except for an existence check that is turned around by
the value `false`. `PolicySpec.covers` is the whole test: the namespace, the selectors and the conditions of a policy.
-/

namespace Reaper

namespace Scalar

/-- The value is the text, or both are numbers that differ by less than `2 ^ (-52)`. -/
def equals (actual : Json) (expected : String) : Bool :=
  actual.asText? == some expected ||
    match actual.asNumber?, Binary64.read? (Text.trim expected.toList) with
    | some a, some e => ((a - e).abs).lt Binary64.epsilon
    | _, _ => false

/-- The value lies above the text: as a number when both are numbers, else as an instant. -/
def exceeds (actual : Json) (expected : String) : Bool :=
  match actual.asNumber?, Binary64.read? (Text.trim expected.toList) with
  | some a, some e => e.lt a
  | _, _ =>
    match actual.asInstant?, (Json.string expected).asInstant? with
    | some a, some e => e < a
    | _, _ => false

end Scalar

/-- The value that turns an existence check around. -/
def isNegated (value : Option String) : Bool :=
  value.any fun v => Text.equalsIgnoringCase (Text.trim v.toList) "false"

/-- Whether the labels or annotations meet a condition. -/
def MetadataCondition.holds (c : MetadataCondition) (values : Option (Dictionary String)) : Bool :=
  let actual := values.bind (·.get? c.key)
  match c.operator with
  | .exists => if isNegated c.value then actual.isNone else actual.isSome
  | .equals => actual.isSome && actual == c.value
  | .isIn => actual.any c.values.contains
  | .notIn => actual.any fun v => !c.values.contains v

def FieldCondition.holds (c : FieldCondition) (doc : Json) : Bool :=
  let found := Path.lookup? doc c.fieldPath
  match c.operator, found with
  | .exists, _ => if isNegated c.value then found.isNone else found.isSome
  | _, none => false
  | .equals, some actual => c.value.any (Scalar.equals actual)
  | .notEquals, some actual => c.value.any fun e => !Scalar.equals actual e
  | .isIn, some actual => c.values.any (Scalar.equals actual)
  | .notIn, some actual => !c.values.any (Scalar.equals actual)
  | .greaterThan, some actual => c.value.any (Scalar.exceeds actual)

/-- Where the phase of a resource stands. -/
def phasePath : String := ".status.phase"

/-- Whether the phase is one of a list; the empty list allows any phase, and a resource without one. -/
def phaseAllowed (phases : List String) (doc : Json) : Bool :=
  phases.isEmpty || ((Path.lookup? doc phasePath).bind Json.asText?).any phases.contains

/-- Whether a resource with its document meets all conditions. -/
def ConditionSet.holds (c : ConditionSet) (r : Resource) (doc : Json) : Bool :=
  phaseAllowed c.phase doc &&
    c.labels.all (·.holds r.metadata.labels) &&
    c.annotations.all (·.holds r.metadata.annotations) &&
    c.fields.all (·.holds doc)

/-- Whether every field selected by path has exactly the text asked for. -/
def FieldSelector.holds (s : FieldSelector) (doc : Json) : Bool :=
  s.entries.all fun e => ((Path.lookup? doc e.1).bind Json.asText?) == some e.2

/-- Whether a resource is in the namespace watched, if there is one, and meets both selectors. -/
def TargetResource.selects (t : TargetResource) (scope : Option String) (r : Resource) (doc : Json) : Bool :=
  scope.all (fun ns => r.metadata.namespace == some ns) &&
    t.labelSelector.all (·.holds r.metadata.labels) &&
    t.fieldSelector.all (·.holds doc)

/-- Whether a resource meets the conditions of a policy, if it has any. -/
def PolicySpec.conditionsHold (s : PolicySpec) (r : Resource) (doc : Json) : Bool :=
  s.conditions.all (·.holds r doc)

/-- Whether a policy that watches `scope` is about a resource. -/
def PolicySpec.covers (s : PolicySpec) (scope : Option String) (r : Resource) (doc : Json) : Bool :=
  s.targetResource.selects scope r doc && s.conditionsHold r doc

end Reaper
