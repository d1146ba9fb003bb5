import Reaper.Schema
import Reaper.Policy.Wire

/-!
The custom resource definition that makes policies known to the API server.

One schema for each record of a policy, with the same field names as the wire form, and `Policy.definition`, which puts
them together with the names of the resource and the columns that are printed for it.
-/

namespace Reaper

def Schema.choiceOf {α : Type} (name : α → String) (values : List α) : Schema := .choice (values.map name)

def LabelRequirement.schema : Schema :=
  .record
    [("key", .text), ("operator", .choiceOf LabelOperator.text [.isIn, .notIn, .present, .absent]),
      ("values", .list .text)]
    ["key", "operator"]

def LabelSelector.schema : Schema :=
  .described "Kubernetes-style label selector"
    (.record [("matchLabels", .dictionary .text), ("matchExpressions", .list LabelRequirement.schema)] [])

def TargetResource.schema : Schema :=
  .record
    [("apiVersion", .described "\x60v1\x60 for the core group, otherwise \x60group/version\x60" .text),
      ("kind", .text),
      ("resource", .described "Plural resource name; derived from \x60kind\x60 when omitted" (.nullable .text)),
      ("namespace",
        .described "Namespace to watch. Unset means the policy\x27s own namespace, \x60*\x60 means all."
          (.nullable .text)),
      ("labelSelector", .nullable LabelSelector.schema),
      ("fieldSelector", .described "Field path to exact string value" (.nullable (.dictionary .text)))]
    ["apiVersion", "kind"]

def TtlSpec.schema : Schema :=
  .record
    [("secondsAfterCreation",
        .described "Fixed mode: seconds after \x60metadata.creationTimestamp\x60" (.nullable (.whole .int64))),
      ("fieldPath", .described "Field-path mode (or mapped mode when \x60mappings\x60 is set)" (.nullable .text)),
      ("mappings", .described "Mapped mode: field value to TTL seconds" (.nullable (.dictionary (.whole .int64)))),
      ("default", .described "Mapped mode fallback when the value has no mapping" (.nullable (.whole .int64))),
      ("relativeTo", .described "Relative mode: field path holding the reference timestamp" (.nullable .text)),
      ("secondsAfter", .described "Relative mode: seconds after the reference timestamp" (.nullable (.whole .int64)))]
    []

/-- Conditions on a label or an annotation. -/
def MetadataCondition.schema : Schema :=
  .described "Condition on a label or annotation key"
    (.record
      [("key", .text), ("operator", .choiceOf MetadataOperator.text [.exists, .equals, .isIn, .notIn]),
        ("value", .nullable .text), ("values", .list .text)]
      ["key", "operator"])

def FieldCondition.schema : Schema :=
  .described "Condition on an arbitrary field path"
    (.record
      [("fieldPath", .text),
        ("operator",
          .choiceOf FieldOperator.text [.equals, .notEquals, .isIn, .notIn, .exists, .greaterThan]),
        ("value",
          .described "Comparison value. For \x60Exists\x60, \x60\x22false\x22\x60 negates the check."
            (.nullable .text)),
        ("values", .list .text)]
      ["fieldPath", "operator"])

def ConditionSet.schema : Schema :=
  .record
    [("phase", .described "Allowed values of \x60.status.phase\x60" (.list .text)),
      ("labels", .list MetadataCondition.schema), ("annotations", .list MetadataCondition.schema),
      ("fields", .list FieldCondition.schema)]
    []

def Behavior.schema : Schema :=
  .record
    [("maxDeletionsPerSecond",
        .described "Token bucket rate and burst; non-positive falls back to the controller default"
          (.nullable (.whole .int32))),
      ("batchSize",
        .described "Deletions issued together before moving to the next group" (.nullable (.whole .int32))),
      ("dryRun",
        .described "Log intended deletions without calling the API server" (.withDefault (.bool false) .truth)),
      ("propagationPolicy",
        .withDefault (.string Propagation.background.text)
          (.choiceOf Propagation.text [.foreground, .background, .orphan])),
      ("gracePeriodSeconds", .nullable (.whole .uint32))]
    []

def PolicySpec.schema : Schema :=
  .described "\x60GarbageCollectionPolicy\x60 CRD describing what to collect and how fast"
    (.record
      [("targetResource", .described "Resource type, scope and selectors to watch" TargetResource.schema),
        ("ttl", .described "Expiration rule" TtlSpec.schema),
        ("conditions",
          .described "Extra conditions a resource must satisfy (all AND-ed)" (.nullable ConditionSet.schema)),
        ("behavior",
          .described "Deletion throughput and semantics"
            (.withDefault (Behavior.encode {}) Behavior.schema)),
        ("paused",
          .described "Suspend deletions while keeping the watch alive" (.withDefault (.bool false) .truth))]
      ["targetResource", "ttl"])

def PolicyStatus.schema : Schema :=
  let counter (description : String) (format : WholeFormat) : Schema :=
    .described description (.withDefault (.int 0) (.whole format))
  .described "Status of the \x60GarbageCollectionPolicy\x60"
    (.record
      [("phase",
          .described "Policy phase as reported in status"
            (.nullable (.choiceOf PolicyPhase.text [.active, .paused, .error]))),
        ("message", .described "Human-readable message about the current state" (.nullable .text)),
        ("resourcesMatched", counter "Resources matching selectors and conditions in the last pass" .uint32),
        ("resourcesDeleted", counter "Resources deleted in the last pass" .uint32),
        ("resourcesPending", counter "Matched resources whose TTL has not elapsed yet" .uint32),
        ("totalDeleted", counter "Resources deleted since the policy was created" .uint64),
        ("lastRunTime", .described "RFC 3339 timestamp of the last evaluation pass" (.nullable .text)),
        ("nextRunTime", .described "RFC 3339 timestamp of the next scheduled pass" (.nullable .text)),
        ("observedGeneration", .nullable (.whole .int64))]
      [])

namespace Policy

def schema : Schema :=
  .titled kind
    (.described "Auto-generated derived type for GarbageCollectionPolicySpec via \x60CustomResource\x60"
      (.record [("spec", PolicySpec.schema), ("status", .nullable PolicyStatus.schema)] ["spec"]))

def column (name type path : String) : Json :=
  Json.ofFields [("name", .string name), ("type", .string type), ("jsonPath", .string path)]

def columns : List Json :=
  [column "Phase" "string" ".status.phase", column "Target" "string" ".spec.targetResource.kind",
    column "Matched" "integer" ".status.resourcesMatched", column "Deleted" "integer" ".status.totalDeleted",
    column "Age" "date" ".metadata.creationTimestamp"]

def versionEntry : Json :=
  Json.ofFields
    [("name", .string version), ("served", .bool true), ("storage", .bool true),
      ("schema", Json.ofFields [("openAPIV3Schema", schema.encode)]), ("additionalPrinterColumns", .array columns),
      ("subresources", Json.ofFields [("status", Json.ofFields [])])]

/-- The custom resource definition. -/
def definition : Json :=
  Json.ofFields
    [("apiVersion", .string "apiextensions.k8s.io/v1"), ("kind", .string "CustomResourceDefinition"),
      ("metadata", Json.ofFields [("name", .string (plural ++ "." ++ apiGroup))]),
      ("spec", Json.ofFields
        [("group", .string apiGroup), ("scope", .string "Namespaced"),
          ("names", Json.ofFields
            [("kind", .string kind), ("plural", .string plural), ("singular", .string kind.toLower),
              ("shortNames", .array [.string "gcp"]), ("categories", .array [])]),
          ("versions", .array [versionEntry])])]

end Policy

end Reaper
