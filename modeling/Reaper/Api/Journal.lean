import Reaper.Api.Collection
import Reaper.Notice
import Reaper.Text.Quoted

/-!
The journal: notices are published as events.

Notices of the same severity and reason about the same policy make a series. The first one is published as a new event;
each further one only counts the event up, whatever its own message says. The journal remembers the events that it has
published; one that could not be published is not remembered.
-/

namespace Reaper.Api

/-- A published event: its content, and how often it has been observed. -/
structure Event where
  name : String
  ref : PolicyRef
  notice : Notice
  /-- when it was observed first -/
  time : Instant
  /-- how often and when last, once it has been observed again -/
  series : Option (Nat × Instant) := none
  deriving DecidableEq, Repr

/-- Who reports. -/
structure Reporter where
  controller : String := "gc-controller"
  /-- which replica reports, if that is known -/
  replica : Option String := none
  deriving DecidableEq, Repr

/-- The published events. -/
abbrev Journal := List Event

namespace Event

/-- The event is one of a notice's series. -/
def isOf (ref : PolicyRef) (n : Notice) (e : Event) : Bool :=
  e.ref = ref && e.notice.severity = n.severity && e.notice.reason = n.reason

/-- The event of a notice that is observed for the first time; its name is that of the policy and the time. -/
def first (ref : PolicyRef) (n : Notice) (now : Instant) : Event :=
  { name := ref.name ++ "." ++ String.ofList (Text.hexDigits (now.secs * Duration.perSecond + now.nanos).toNat)
    ref, notice := n, time := now }

/-- The event observed once more. -/
def again (e : Event) (now : Instant) : Event :=
  { e with series := some ((e.series.map (·.1)).getD 1 + 1, now) }

def encode (r : Reporter) (e : Event) : Json :=
  Json.ofPresent
    [("apiVersion", some (.string "events.k8s.io/v1")), ("kind", some (.string "Event")),
      ("metadata", some (Json.ofFields [("name", .string e.name), ("namespace", .string e.ref.namespace)])),
      ("action", some (.string "GarbageCollect")), ("reason", some (.string e.notice.reason)),
      ("note", some (.string e.notice.message)), ("type", some (.string e.notice.severity.text)),
      ("regarding", some e.ref.objectReference), ("eventTime", some (.string e.time.toMicroText)),
      ("reportingController", some (.string r.controller)),
      ("reportingInstance", some (.string (r.replica.getD r.controller))),
      ("series", e.series.map fun (count, last) =>
        Json.ofFields [("count", Json.ofNat count), ("lastObservedTime", .string last.toMicroText)])]

/-- Reads a reference to an object; only its form is of interest. -/
def reference? (j : Json) : Option Unit := do
  let .object _ := j | none
  ["apiVersion", "fieldPath", "kind", "name", "namespace", "resourceVersion", "uid"].forM fun key =>
    (j.lastOf? key Json.text?).map fun _ => ()

/-- Reads the source of an event; only its form is of interest. -/
def source? (j : Json) : Option Unit := do
  let .object _ := j | none
  ["component", "host"].forM fun key => (j.lastOf? key Json.text?).map fun _ => ()

/-- Reads a series, which has a last time; only its form is of interest. -/
def series? (j : Json) : Option Unit := do
  let .object _ := j | none
  let _ ← j.lastOf? "count" Json.int32?
  let some _ ← j.lastOf? "lastObservedTime" Json.instant? | none
  some ()

/-- Reads a reply that is an event; only its form is of interest. -/
def reply? (j : Json) : Option Unit := do
  let .object _ := j | none
  let true := isOfType "events.k8s.io/v1" "Event" j | none
  let _ ← j.lastOf? "metadata" Metadata.decode?
  ["action", "note", "reason", "reportingController", "reportingInstance", "type"].forM fun key =>
    (j.lastOf? key Json.text?).map fun _ => ()
  ["eventTime", "deprecatedFirstTimestamp", "deprecatedLastTimestamp"].forM fun key =>
    (j.lastOf? key Json.instant?).map fun _ => ()
  let _ ← j.lastOf? "deprecatedCount" Json.int32?
  let _ ← j.lastOf? "regarding" reference?
  let _ ← j.lastOf? "related" reference?
  let _ ← j.lastOf? "deprecatedSource" source?
  let _ ← j.lastOf? "series" series?
  some ()

end Event

/-- The path of the events of a namespace. -/
def events («namespace» : String) : Collection :=
  { group := "events.k8s.io", version := "v1", «namespace», plural := "events" }

namespace Journal

/-- The event that a notice makes, and whether it goes on with a series. -/
def next (j : Journal) (ref : PolicyRef) (n : Notice) (now : Instant) : Event :=
  match j.find? (Event.isOf ref n) with
  | some e => e.again now
  | none => .first ref n now

/-- Publishes an event: a new one is created, one of a series is patched. -/
def send (r : Reporter) (e : Event) : Exchange (Except Fault Unit) :=
  let path := events e.ref.namespace
  if e.series.isSome then
    callNamed e.name
      { method := .patch, path := path.objectPath e.name, content := some (.mergePatch, e.encode r) }
      (Response.decode Event.reply?)
  else call { method := .post, path := path.path, content := some (.json, e.encode r) } (Response.decode Event.reply?)

/-- The journal with an event remembered in the place of the one before it. -/
def remember (j : Journal) (e : Event) : Journal := e :: j.filter fun old => !old.isOf e.ref e.notice

def publish (r : Reporter) (j : Journal) (ref : PolicyRef) (n : Notice) (now : Instant) :
    Exchange (Except Fault Unit × Journal) := do
  let e := j.next ref n now
  match ← send r e with
  | .error fault => pure (.error fault, j)
  | .ok () => pure (.ok (), j.remember e)

end Journal

end Reaper.Api
