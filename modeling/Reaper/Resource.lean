import Reaper.Json.Decode
import Reaper.Time.Lenient

/-!
Resources of the cluster: a type, metadata, and whatever else the resource holds.

The metadata has known fields; the rest is kept as it came. `Resource.decode?` reads a resource from JSON and
`Resource.document` writes it back, with timestamps in whole seconds. Only the creation time keeps its fraction, for
those who compute with it.
-/

namespace Reaper

/-- A resource that owns another. -/
structure OwnerReference where
  apiVersion : String
  kind : String
  name : String
  uid : String
  controller : Option Bool
  blockOwnerDeletion : Option Bool
  deriving DecidableEq, Repr

/-- Which fields of a resource somebody manages. -/
structure ManagedFields where
  apiVersion : Option String
  fieldsType : Option String
  /-- the fields, in a form of their own -/
  fields : Option Json
  manager : Option String
  operation : Option String
  subresource : Option String
  time : Option Instant
  deriving Repr

/-- The metadata of a resource. -/
structure Metadata where
  name : Option String := none
  «namespace» : Option String := none
  uid : Option String := none
  generateName : Option String := none
  resourceVersion : Option String := none
  selfLink : Option String := none
  labels : Option (Dictionary String) := none
  annotations : Option (Dictionary String) := none
  creationTimestamp : Option Instant := none
  deletionTimestamp : Option Instant := none
  generation : Option Int := none
  deletionGracePeriodSeconds : Option Int := none
  finalizers : Option (List String) := none
  ownerReferences : Option (List OwnerReference) := none
  managedFields : Option (List ManagedFields) := none
  deriving Inhabited

def Json.instant? : Json.Decoder Instant := fun j => j.text?.bind Instant.ofLenientText?

namespace OwnerReference

/-- Reads an owner reference; the four texts are empty when they are missing or null. -/
def decode? (j : Json) : Option OwnerReference := do
  let .object _ := j | none
  some
    { apiVersion := (← j.lastOf? "apiVersion" Json.text?).getD ""
      kind := (← j.lastOf? "kind" Json.text?).getD ""
      name := (← j.lastOf? "name" Json.text?).getD ""
      uid := (← j.lastOf? "uid" Json.text?).getD ""
      controller := ← j.lastOf? "controller" Json.truth?
      blockOwnerDeletion := ← j.lastOf? "blockOwnerDeletion" Json.truth? }

def encode (o : OwnerReference) : Json :=
  Json.ofPresent
    [("apiVersion", some (.string o.apiVersion)), ("kind", some (.string o.kind)),
      ("name", some (.string o.name)), ("uid", some (.string o.uid)),
      ("controller", o.controller.map .bool), ("blockOwnerDeletion", o.blockOwnerDeletion.map .bool)]

end OwnerReference

namespace ManagedFields

def decode? (j : Json) : Option ManagedFields := do
  let .object _ := j | none
  some
    { apiVersion := ← j.lastOf? "apiVersion" Json.text?
      fieldsType := ← j.lastOf? "fieldsType" Json.text?
      fields := ← j.lastOf? "fieldsV1" Json.settled?
      manager := ← j.lastOf? "manager" Json.text?
      operation := ← j.lastOf? "operation" Json.text?
      subresource := ← j.lastOf? "subresource" Json.text?
      time := ← j.lastOf? "time" Json.instant? }

def encode (m : ManagedFields) : Json :=
  Json.ofPresent
    [("apiVersion", m.apiVersion.map .string), ("fieldsType", m.fieldsType.map .string), ("fieldsV1", m.fields),
      ("manager", m.manager.map .string), ("operation", m.operation.map .string),
      ("subresource", m.subresource.map .string), ("time", m.time.map fun t => .string t.toSecondText)]

end ManagedFields

namespace Metadata

/-- An object of any content. -/
def anyObject? : Json.Decoder Json
  | .object fields => some (.object fields)
  | _ => none

/-- Reads metadata. Unknown fields are dropped, and a field that is null is absent. Of a field that occurs twice the
second counts, but both have to be readable. -/
def decode? (j : Json) : Option Metadata := do
  let .object _ := j | none
  some
    { name := ← j.lastOf? "name" Json.text?
      «namespace» := ← j.lastOf? "namespace" Json.text?
      uid := ← j.lastOf? "uid" Json.text?
      generateName := ← j.lastOf? "generateName" Json.text?
      resourceVersion := ← j.lastOf? "resourceVersion" Json.text?
      selfLink := ← j.lastOf? "selfLink" Json.text?
      labels := ← j.lastOf? "labels" (Json.dictionary? Json.text?)
      annotations := ← j.lastOf? "annotations" (Json.dictionary? Json.text?)
      creationTimestamp := ← j.lastOf? "creationTimestamp" Json.instant?
      deletionTimestamp := ← j.lastOf? "deletionTimestamp" Json.instant?
      generation := ← j.lastOf? "generation" Json.int64?
      deletionGracePeriodSeconds := ← j.lastOf? "deletionGracePeriodSeconds" Json.int64?
      finalizers := ← j.lastOf? "finalizers" (Json.list? Json.text?)
      ownerReferences := ← j.lastOf? "ownerReferences" (Json.list? OwnerReference.decode?)
      managedFields := ← j.lastOf? "managedFields" (Json.list? ManagedFields.decode?) }

/-- The metadata as JSON, without the fields that are absent. -/
def encode (m : Metadata) : Json :=
  let texts (t : Option String) : Option Json := t.map .string
  let time (t : Option Instant) : Option Json := t.map fun i => .string i.toSecondText
  Json.ofPresent
    [("name", texts m.name), ("namespace", texts m.namespace), ("uid", texts m.uid),
      ("generateName", texts m.generateName), ("resourceVersion", texts m.resourceVersion),
      ("selfLink", texts m.selfLink), ("labels", m.labels.map Json.ofTexts),
      ("annotations", m.annotations.map Json.ofTexts), ("creationTimestamp", time m.creationTimestamp),
      ("deletionTimestamp", time m.deletionTimestamp), ("generation", m.generation.map .int),
      ("deletionGracePeriodSeconds", m.deletionGracePeriodSeconds.map .int),
      ("finalizers", m.finalizers.map fun fs => .array (fs.map .string)),
      ("ownerReferences", m.ownerReferences.map fun os => .array (os.map OwnerReference.encode)),
      ("managedFields", m.managedFields.map fun ms => .array (ms.map ManagedFields.encode))]

end Metadata

/-- A resource: its type if it has one, its metadata, and its other fields. -/
structure Resource where
  type : Option (String × String) := none
  metadata : Metadata := {}
  fields : List (String × Json) := []
  deriving Inhabited

namespace Resource

/-- Takes the type out of fields, in their order. Both parts of it have to be texts, and the first one that is not, or
that comes twice, ends the taking: it is gone, and what comes after it stays. -/
def takeTypeFrom (apiVersion kind : Option String) (kept : List (String × Json)) :
    List (String × Json) → Option (String × String) × List (String × Json)
  | [] => ((do some (← apiVersion, ← kind)), kept.reverse)
  | (key, j) :: rest =>
    match key, j with
    | "apiVersion", .string s =>
      if apiVersion.isSome then (none, kept.reverse ++ rest) else takeTypeFrom (some s) kind kept rest
    | "kind", .string s =>
      if kind.isSome then (none, kept.reverse ++ rest) else takeTypeFrom apiVersion (some s) kept rest
    | "apiVersion", _ | "kind", _ => (none, kept.reverse ++ rest)
    | _, _ => takeTypeFrom apiVersion kind ((key, j) :: kept) rest

/-- The type that some fields hold, and the other fields. -/
def takeType (fields : List (String × Json)) : Option (String × String) × List (String × Json) :=
  takeTypeFrom none none [] fields

/-- Parts a record that keeps its unknown fields: the known ones, none of them twice, and the type with the other
fields, every one of which has to be readable. -/
def parts? (known : List String) (j : Json) :
    Option (Json × Option (String × String) × List (String × Json)) := do
  let .object fields := j | none
  let r ← j.record? known
  let others ← Json.settledFields? (fields.filter fun e => !known.contains e.1)
  some (r, takeType others)

/-- Reads a resource. Metadata may be missing. -/
def decode? (j : Json) : Option Resource := do
  let (r, type, others) ← parts? ["metadata"] j
  let metadata ← r.defaulted? "metadata" {} Metadata.decode?
  some { type, metadata, fields := (Dictionary.ofList others).entries }

/-- The resource written back as a document. -/
def document (r : Resource) : Json :=
  let typed := match r.type with
    | some (apiVersion, kind) => [("apiVersion", Json.string apiVersion), ("kind", .string kind)]
    | none => []
  Json.ofFields (typed ++ [("metadata", r.metadata.encode)] ++ r.fields)

/-- The name, else the name it is generated from, else nothing. -/
def name (r : Resource) : String :=
  (r.metadata.name.or r.metadata.generateName).getD ""

/-- How a resource is called in messages: `namespace/name`, or the name alone. -/
def label (r : Resource) : String :=
  match r.metadata.namespace with
  | some ns => ns ++ "/" ++ r.name
  | none => r.name

def annotation? (r : Resource) (key : String) : Option String := r.metadata.annotations.bind (·.get? key)

end Resource

end Reaper
