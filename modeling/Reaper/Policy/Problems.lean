import Reaper.Policy
import Reaper.Text.Blank

/-!
Structural problems of a policy's specification.

They are reported and do not stop anything: what reaches evaluation still fails safe. `PolicySpec.problems` lists them
in a fixed order, and `PolicyProblem.message` words them.
-/

namespace Reaper

/-- Cuts a text at the first slash. -/
def splitSlash (cs : List Char) : List Char × Option (List Char) :=
  match cs.dropWhile (· != '/') with
  | [] => (cs, none)
  | _ :: rest => (cs.takeWhile (· != '/'), some rest)

/-- The group and the version of an API version; the core group is empty. -/
def TargetResource.groupVersion (t : TargetResource) : String × String :=
  match splitSlash (Text.trim t.apiVersion.toList) with
  | (group, some version) => (String.ofList group, String.ofList version)
  | (version, none) => ("", String.ofList version)

/-- What can be wrong with a specification. -/
inductive PolicyProblem where
  | apiVersionUnset
  | apiVersionMalformed (apiVersion : String)
  | kindUnset
  | noTtlMode
  | severalTtlModes
  | mappingsWithoutPath
  | defaultWithoutMappings
  | secondsAfterWithoutReference
  | negativeSeconds
  | conditionWithoutValues (path : String) (operator : FieldOperator)
  | conditionWithoutValue (path : String) (operator : FieldOperator)
  | negativeBatchSize
  deriving DecidableEq, Repr

def PolicyProblem.message : PolicyProblem → String
  | apiVersionUnset => "targetResource.apiVersion must be set"
  | apiVersionMalformed v =>
    "targetResource.apiVersion '" ++ v ++ "' is not of the form 'version' or 'group/version'"
  | kindUnset => "targetResource.kind must be set"
  | noTtlMode => "ttl must set one of secondsAfterCreation, fieldPath or relativeTo"
  | severalTtlModes => "ttl modes are exclusive; only the highest-priority mode will apply"
  | mappingsWithoutPath => "ttl.mappings requires ttl.fieldPath"
  | defaultWithoutMappings => "ttl.default is only used together with ttl.mappings"
  | secondsAfterWithoutReference => "ttl.secondsAfter requires ttl.relativeTo"
  | negativeSeconds => "ttl.secondsAfterCreation must not be negative"
  | conditionWithoutValues path operator =>
    "conditions.fields[" ++ path ++ "]: operator " ++ operator.text ++ " requires values"
  | conditionWithoutValue path operator =>
    "conditions.fields[" ++ path ++ "]: operator " ++ operator.text ++ " requires value"
  | negativeBatchSize => "behavior.batchSize must not be negative"

def PolicyProblem.isAboutTarget : PolicyProblem → Bool
  | apiVersionUnset | apiVersionMalformed _ | kindUnset => true
  | _ => false

/-- A problem when a test holds. -/
def problemWhen (test : Bool) (p : PolicyProblem) : List PolicyProblem := if test then [p] else []

def TargetResource.problems (t : TargetResource) : List PolicyProblem :=
  let version := t.groupVersion.2
  (if Text.isBlankText t.apiVersion then [.apiVersionUnset]
    else problemWhen (version.isEmpty || version.contains '/') (.apiVersionMalformed t.apiVersion)) ++
    problemWhen (Text.isBlankText t.kind) .kindUnset

/-- The problems of a rule for the time to live. -/
def TtlSpec.problems (t : TtlSpec) : List PolicyProblem :=
  let modes := [t.secondsAfterCreation.isSome, t.fieldPath.isSome, t.relativeTo.isSome].count true
  problemWhen (modes == 0) .noTtlMode ++
    problemWhen (2 ≤ modes) .severalTtlModes ++
    problemWhen (t.mappings.isSome && t.fieldPath.isNone) .mappingsWithoutPath ++
    problemWhen (t.default.isSome && t.mappings.isNone) .defaultWithoutMappings ++
    problemWhen (t.secondsAfter.isSome && t.relativeTo.isNone) .secondsAfterWithoutReference ++
    problemWhen (t.secondsAfterCreation.any (· < 0)) .negativeSeconds

/-- The operator compares with a list of values. -/
def FieldOperator.needsValues : FieldOperator → Bool
  | isIn | notIn => true
  | _ => false

def FieldOperator.needsValue : FieldOperator → Bool
  | equals | notEquals | greaterThan => true
  | _ => false

/-- The problems of a condition on a field. -/
def FieldCondition.problems (c : FieldCondition) : List PolicyProblem :=
  problemWhen (c.operator.needsValues && c.values.isEmpty) (.conditionWithoutValues c.fieldPath c.operator) ++
    problemWhen (c.operator.needsValue && c.value.isNone) (.conditionWithoutValue c.fieldPath c.operator)

/-- All problems of a specification, in order. -/
def PolicySpec.problems (s : PolicySpec) : List PolicyProblem :=
  s.targetResource.problems ++ s.ttl.problems ++
    (s.conditions.map fun c => c.fields.flatMap FieldCondition.problems).getD [] ++
    problemWhen (s.behavior.batchSize.any (· < 0)) .negativeBatchSize

end Reaper
