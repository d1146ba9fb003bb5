import Reaper.Policy

/-!
Policies as JSON.

Each record has an encoder beside its decoder. Optional fields that are absent, and lists and maps that are empty, are
left out; the switches of the behavior and the counters of the status are always written. Reading fills in what was
left out, so a record is read back from what is written.
-/

namespace Reaper

/-- A list as JSON, left out when it is empty. -/
def Json.ofNonempty {α : Type} (encode : α → Json) (xs : List α) : Option Json :=
  if xs.isEmpty then none else some (.array (xs.map encode))

namespace LabelOperator

def choices : List (String × LabelOperator) :=
  [isIn, notIn, present, absent].map fun o => (o.text, o)

end LabelOperator

namespace LabelRequirement

def decode? (j : Json) : Option LabelRequirement := do
  let r ← j.record? ["key", "operator", "values"]
  some
    { key := ← r.required? "key" Json.text?
      operator := ← r.required? "operator" (Json.choice? LabelOperator.choices)
      values := ← r.defaulted? "values" [] (Json.list? Json.text?) }

def encode (q : LabelRequirement) : Json :=
  Json.ofPresent
    [("key", some (.string q.key)), ("operator", some (.string q.operator.text)),
      ("values", Json.ofNonempty .string q.values)]

end LabelRequirement

namespace LabelSelector

def decode? (j : Json) : Option LabelSelector := do
  let r ← j.record? ["matchLabels", "matchExpressions"]
  some
    { matchLabels := ← r.defaulted? "matchLabels" ∅ (Json.dictionary? Json.text?)
      matchExpressions := ← r.defaulted? "matchExpressions" [] (Json.list? LabelRequirement.decode?) }

def encode (s : LabelSelector) : Json :=
  Json.ofPresent
    [("matchLabels", if s.matchLabels.isEmpty then none else some (Json.ofTexts s.matchLabels)),
      ("matchExpressions", Json.ofNonempty LabelRequirement.encode s.matchExpressions)]

end LabelSelector

namespace TargetResource

def decode? (j : Json) : Option TargetResource := do
  let r ← j.record? ["apiVersion", "kind", "resource", "namespace", "labelSelector", "fieldSelector"]
  some
    { apiVersion := ← r.required? "apiVersion" Json.text?
      kind := ← r.required? "kind" Json.text?
      resource := ← r.optional? "resource" Json.text?
      «namespace» := ← r.optional? "namespace" Json.text?
      labelSelector := ← r.optional? "labelSelector" LabelSelector.decode?
      fieldSelector := ← r.optional? "fieldSelector" (Json.dictionary? Json.text?) }

def encode (t : TargetResource) : Json :=
  Json.ofPresent
    [("apiVersion", some (.string t.apiVersion)), ("kind", some (.string t.kind)),
      ("resource", t.resource.map .string), ("namespace", t.namespace.map .string),
      ("labelSelector", t.labelSelector.map LabelSelector.encode),
      ("fieldSelector", t.fieldSelector.map Json.ofTexts)]

end TargetResource

namespace TtlSpec

def decode? (j : Json) : Option TtlSpec := do
  let r ← j.record? ["secondsAfterCreation", "fieldPath", "mappings", "default", "relativeTo", "secondsAfter"]
  some
    { secondsAfterCreation := ← r.optional? "secondsAfterCreation" Json.int64?
      fieldPath := ← r.optional? "fieldPath" Json.text?
      mappings := ← r.optional? "mappings" (Json.dictionary? Json.int64?)
      default := ← r.optional? "default" Json.int64?
      relativeTo := ← r.optional? "relativeTo" Json.text?
      secondsAfter := ← r.optional? "secondsAfter" Json.int64? }

def encode (t : TtlSpec) : Json :=
  Json.ofPresent
    [("secondsAfterCreation", t.secondsAfterCreation.map .int), ("fieldPath", t.fieldPath.map .string),
      ("mappings", t.mappings.map fun m => .object (m.entries.map fun e => (e.1, .int e.2))),
      ("default", t.default.map .int), ("relativeTo", t.relativeTo.map .string),
      ("secondsAfter", t.secondsAfter.map .int)]

end TtlSpec

namespace MetadataCondition

def operators : List (String × MetadataOperator) :=
  [MetadataOperator.exists, .equals, .isIn, .notIn].map fun o => (o.text, o)

def decode? (j : Json) : Option MetadataCondition := do
  let r ← j.record? ["key", "operator", "value", "values"]
  some
    { key := ← r.required? "key" Json.text?
      operator := ← r.required? "operator" (Json.choice? operators)
      value := ← r.optional? "value" Json.text?
      values := ← r.defaulted? "values" [] (Json.list? Json.text?) }

def encode (c : MetadataCondition) : Json :=
  Json.ofPresent
    [("key", some (.string c.key)), ("operator", some (.string c.operator.text)), ("value", c.value.map .string),
      ("values", Json.ofNonempty .string c.values)]

end MetadataCondition

namespace FieldCondition

def operators : List (String × FieldOperator) :=
  [FieldOperator.equals, .notEquals, .isIn, .notIn, .exists, .greaterThan].map fun o => (o.text, o)

def decode? (j : Json) : Option FieldCondition := do
  let r ← j.record? ["fieldPath", "operator", "value", "values"]
  some
    { fieldPath := ← r.required? "fieldPath" Json.text?
      operator := ← r.required? "operator" (Json.choice? operators)
      value := ← r.optional? "value" Json.text?
      values := ← r.defaulted? "values" [] (Json.list? Json.text?) }

def encode (c : FieldCondition) : Json :=
  Json.ofPresent
    [("fieldPath", some (.string c.fieldPath)), ("operator", some (.string c.operator.text)),
      ("value", c.value.map .string), ("values", Json.ofNonempty .string c.values)]

end FieldCondition

namespace ConditionSet

def decode? (j : Json) : Option ConditionSet := do
  let r ← j.record? ["phase", "labels", "annotations", "fields"]
  some
    { phase := ← r.defaulted? "phase" [] (Json.list? Json.text?)
      labels := ← r.defaulted? "labels" [] (Json.list? MetadataCondition.decode?)
      annotations := ← r.defaulted? "annotations" [] (Json.list? MetadataCondition.decode?)
      fields := ← r.defaulted? "fields" [] (Json.list? FieldCondition.decode?) }

def encode (c : ConditionSet) : Json :=
  Json.ofPresent
    [("phase", Json.ofNonempty .string c.phase), ("labels", Json.ofNonempty MetadataCondition.encode c.labels),
      ("annotations", Json.ofNonempty MetadataCondition.encode c.annotations),
      ("fields", Json.ofNonempty FieldCondition.encode c.fields)]

end ConditionSet

namespace Behavior

def propagations : List (String × Propagation) :=
  [Propagation.foreground, .background, .orphan].map fun p => (p.text, p)

def decode? (j : Json) : Option Behavior := do
  let r ← j.record? ["maxDeletionsPerSecond", "batchSize", "dryRun", "propagationPolicy", "gracePeriodSeconds"]
  some
    { maxDeletionsPerSecond := ← r.optional? "maxDeletionsPerSecond" Json.int32?
      batchSize := ← r.optional? "batchSize" Json.int32?
      dryRun := ← r.defaulted? "dryRun" false Json.truth?
      propagationPolicy := ← r.defaulted? "propagationPolicy" .background (Json.choice? propagations)
      gracePeriodSeconds := ← r.optional? "gracePeriodSeconds" Json.nat32? }

def encode (b : Behavior) : Json :=
  Json.ofPresent
    [("maxDeletionsPerSecond", b.maxDeletionsPerSecond.map .int), ("batchSize", b.batchSize.map .int),
      ("dryRun", some (.bool b.dryRun)), ("propagationPolicy", some (.string b.propagationPolicy.text)),
      ("gracePeriodSeconds", b.gracePeriodSeconds.map Json.ofNat)]

end Behavior

namespace PolicySpec

def decode? (j : Json) : Option PolicySpec := do
  let r ← j.record? ["targetResource", "ttl", "conditions", "behavior", "paused"]
  some
    { targetResource := ← r.required? "targetResource" TargetResource.decode?
      ttl := ← r.required? "ttl" TtlSpec.decode?
      conditions := ← r.optional? "conditions" ConditionSet.decode?
      behavior := ← r.defaulted? "behavior" {} Behavior.decode?
      paused := ← r.defaulted? "paused" false Json.truth? }

def encode (s : PolicySpec) : Json :=
  Json.ofPresent
    [("targetResource", some s.targetResource.encode), ("ttl", some s.ttl.encode),
      ("conditions", s.conditions.map ConditionSet.encode), ("behavior", some s.behavior.encode),
      ("paused", some (.bool s.paused))]

end PolicySpec

namespace PolicyStatus

def phases : List (String × PolicyPhase) :=
  [PolicyPhase.active, .paused, .error].map fun p => (p.text, p)

def decode? (j : Json) : Option PolicyStatus := do
  let r ← j.record? ["phase", "message", "resourcesMatched", "resourcesDeleted", "resourcesPending", "totalDeleted",
    "lastRunTime", "nextRunTime", "observedGeneration"]
  some
    { phase := ← r.optional? "phase" (Json.choice? phases)
      message := ← r.optional? "message" Json.text?
      resourcesMatched := ← r.defaulted? "resourcesMatched" 0 Json.nat32?
      resourcesDeleted := ← r.defaulted? "resourcesDeleted" 0 Json.nat32?
      resourcesPending := ← r.defaulted? "resourcesPending" 0 Json.nat32?
      totalDeleted := ← r.defaulted? "totalDeleted" 0 Json.nat64?
      lastRunTime := ← r.optional? "lastRunTime" Json.text?
      nextRunTime := ← r.optional? "nextRunTime" Json.text?
      observedGeneration := ← r.optional? "observedGeneration" Json.int64? }

def encode (s : PolicyStatus) : Json :=
  Json.ofPresent
    [("phase", s.phase.map fun p => .string p.text), ("message", s.message.map .string),
      ("resourcesMatched", some (Json.ofNat s.resourcesMatched)),
      ("resourcesDeleted", some (Json.ofNat s.resourcesDeleted)),
      ("resourcesPending", some (Json.ofNat s.resourcesPending)),
      ("totalDeleted", some (Json.ofNat s.totalDeleted)), ("lastRunTime", s.lastRunTime.map .string),
      ("nextRunTime", s.nextRunTime.map .string), ("observedGeneration", s.observedGeneration.map .int)]

end PolicyStatus

namespace Policy

/-- Reads a policy; its type is not looked at. -/
def decode? (j : Json) : Option Policy := do
  let r ← j.recordFrom? 3 ["metadata", "spec", "status"]
  some
    { metadata := ← r.required? "metadata" Metadata.decode?
      spec := ← r.required? "spec" PolicySpec.decode?
      status := ← r.optional? "status" PolicyStatus.decode? }

end Policy

end Reaper
