import Reaper.Selector
import Reaper.Resource

/-!
Policies: what to collect, when it expires, and how fast it may be deleted.

A policy has metadata, a specification and perhaps a status. The specification names a target (a kind of resource in a
namespace, narrowed by selectors), a rule for the time to live, conditions on the resources, and the manner of
deletion.
-/

namespace Reaper

/-- The resources a policy is about. -/
structure TargetResource where
  apiVersion : String
  kind : String
  /-- the plural name, if it is not to be derived from the kind -/
  resource : Option String := none
  /-- unset for the policy's own namespace, `*` for all -/
  «namespace» : Option String := none
  labelSelector : Option LabelSelector := none
  fieldSelector : Option FieldSelector := none
  deriving DecidableEq, Repr

/-- The rule for the time to live. Of several modes the first counts: fixed, by field, relative. -/
structure TtlSpec where
  secondsAfterCreation : Option Int := none
  fieldPath : Option String := none
  mappings : Option (Dictionary Int) := none
  default : Option Int := none
  relativeTo : Option String := none
  secondsAfter : Option Int := none
  deriving DecidableEq, Repr, Inhabited

/-- What a condition asks of a label or an annotation. -/
inductive MetadataOperator where
  | «exists»
  | equals
  | isIn
  | notIn
  deriving DecidableEq, Repr

/-- A condition on a label or an annotation. -/
structure MetadataCondition where
  key : String
  operator : MetadataOperator
  value : Option String := none
  values : List String := []
  deriving DecidableEq, Repr

/-- What a condition asks of a field. -/
inductive FieldOperator where
  | equals
  | notEquals
  | isIn
  | notIn
  | «exists»
  | greaterThan
  deriving DecidableEq, Repr

/-- A condition on the field at a path. -/
structure FieldCondition where
  fieldPath : String
  operator : FieldOperator
  value : Option String := none
  values : List String := []
  deriving DecidableEq, Repr

/-- Conditions that all have to hold. -/
structure ConditionSet where
  phase : List String := []
  labels : List MetadataCondition := []
  annotations : List MetadataCondition := []
  fields : List FieldCondition := []
  deriving DecidableEq, Repr, Inhabited

/-- How the dependents of a deleted resource are dealt with. -/
inductive Propagation where
  | foreground
  | background
  | orphan
  deriving DecidableEq, Repr

/-- The manner of deletion. -/
structure Behavior where
  maxDeletionsPerSecond : Option Int := none
  batchSize : Option Int := none
  dryRun : Bool := false
  propagationPolicy : Propagation := .background
  gracePeriodSeconds : Option Nat := none
  deriving DecidableEq, Repr, Inhabited

/-- The specification of a policy. -/
structure PolicySpec where
  targetResource : TargetResource
  ttl : TtlSpec
  conditions : Option ConditionSet := none
  behavior : Behavior := {}
  paused : Bool := false
  deriving DecidableEq, Repr

/-- The phase that a policy's status reports. -/
inductive PolicyPhase where
  | active
  | paused
  | error
  deriving DecidableEq, Repr

/-- The status of a policy after a pass. -/
structure PolicyStatus where
  phase : Option PolicyPhase := none
  message : Option String := none
  resourcesMatched : Nat := 0
  resourcesDeleted : Nat := 0
  resourcesPending : Nat := 0
  totalDeleted : Nat := 0
  lastRunTime : Option String := none
  nextRunTime : Option String := none
  observedGeneration : Option Int := none
  deriving DecidableEq, Repr, Inhabited

/-- A policy. -/
structure Policy where
  metadata : Metadata
  spec : PolicySpec
  status : Option PolicyStatus := none

def PolicyPhase.text : PolicyPhase → String
  | active => "Active"
  | paused => "Paused"
  | error => "Error"

def Propagation.text : Propagation → String
  | foreground => "Foreground"
  | background => "Background"
  | orphan => "Orphan"

def FieldOperator.text : FieldOperator → String
  | equals => "Equals"
  | notEquals => "NotEquals"
  | isIn => "In"
  | notIn => "NotIn"
  | «exists» => "Exists"
  | greaterThan => "GreaterThan"

def MetadataOperator.text : MetadataOperator → String
  | «exists» => "Exists"
  | equals => "Equals"
  | isIn => "In"
  | notIn => "NotIn"

def LabelOperator.text : LabelOperator → String
  | isIn => "In"
  | notIn => "NotIn"
  | present => "Exists"
  | absent => "DoesNotExist"

namespace Policy

def apiGroup : String := "gc.platform"

/-- The version of the policy resource within its group. -/
def version : String := "v1alpha1"

/-- The group and version of the policy resource. -/
def apiVersion : String := apiGroup ++ "/" ++ version

def kind : String := "GarbageCollectionPolicy"

/-- The plural name of the policy resource. -/
def plural : String := "garbagecollectionpolicies"

/-- The annotation that exempts a resource. -/
def preserveAnnotation : String := "gc.platform/preserve"

/-- The finalizer by which a policy's deletion is observed. -/
def finalizer : String := "gc.platform/policy-cleanup"

end Policy

end Reaper
