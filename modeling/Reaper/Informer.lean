import Reaper.Api.Collection
import Reaper.Api.Server

/-!
Informers: copies of collections that follow the server.

An informer lists its collection page by page, then asks to be told of changes and applies them to its copy. The copy
is replaced when a list is complete, and the informer is ready from its first complete list on. After a fault it
pauses; some faults make it list again. `Informer.step` is one thing that an informer does, `Informer.wake` the time
at which it does the next.
-/

namespace Reaper

/-- What an informer has to know of the objects of its collection. -/
structure ObjectKind (α : Type) where
  decode? : Json.Decoder α
  metadata : α → Metadata

def ObjectKind.resources : ObjectKind Resource := ⟨Resource.decode?, (·.metadata)⟩

/-- A message about a collection, as an informer takes it. -/
inductive Change (α : Type) where
  | applied (object : α) (version : String)
  | removed (object : α) (version : String)
  | bookmark (version : String)
  /-- something went wrong, and perhaps the copy is out of date -/
  | fault (outdated : Bool)
  /-- a message that breaks off, which counts for nothing -/
  | brokenOff
  /-- an object without a name, with which nothing can be done -/
  | nameless
  deriving Repr

namespace Change

variable {α : Type} (k : ObjectKind α)

/-- A message that an object was changed somehow; without a version it leaves the copy out of date. -/
def ofObject (change : α → String → Change α) (j : Json) : Change α :=
  match k.decode? j with
  | none => .fault false
  | some a =>
    match (k.metadata a).resourceVersion with
    | some version =>
      if version = "" then .fault true else if (k.metadata a).name.isNone then .nameless else change a version
    | none => .fault true

/-- The version that a bookmark tells of. -/
def bookmark? (j : Json) : Option String := do
  let (r, some _, _) ← Resource.parts? ["metadata"] j | none
  let metadata ← r.required? "metadata" (Json.record? ["resourceVersion", "annotations"])
  let _ ← metadata.defaulted? "annotations" ∅ (Json.dictionary? Json.text?)
  metadata.required? "resourceVersion" Json.text?

/-- The kind of a message and what it is about. If the kind comes last, no part of what it is about may be
unreadable. -/
def parts? (j : Json) : Option (String × Json) := do
  let r ← j.recordFrom? 2 ["type", "object"]
  let kind ← r.required? "type" Json.choiceName?
  let object ← r.get? "object"
  match j with
  | .object fields =>
    let first ← fields.find? fun e => e.1 == "type" || e.1 == "object"
    if first.1 == "object" then do
      let _ ← object.settled?
      some (kind, object)
    else some (kind, object)
  | _ => some (kind, object)

def ofMessage (j : Json) : Change α :=
  match parts? j with
  | some ("ADDED", object) => ofObject k .applied object
  | some ("MODIFIED", object) => ofObject k .applied object
  | some ("DELETED", object) => ofObject k .removed object
  | some ("BOOKMARK", object) => ((bookmark? object).map .bookmark).getD (.fault false)
  | some ("ERROR", object) =>
    match Api.errorOf? object with
    | some (.api _ _ _ code) => .fault (code = 410)
    | _ => .fault false
  | _ => .fault false

def ofLine (line : String) : Change α :=
  match Json.draft line with
  | .ok j => ofMessage k j
  | .error .truncated => .brokenOff
  | .error .malformed => .fault false

end Change

/-- What an informer does next. -/
inductive InformerPhase (α : Type) where
  /-- asks for a page; what the pages before it had -/
  | listing (page : Option String) (found : List α)
  /-- asks to be told of changes since a version -/
  | listed (version : String)
  /-- takes messages -/
  | following (version : String) (messages : List String) (ends : Bool)
  deriving Repr

/-- A copy of a collection. -/
structure Informer (α : Type) where
  phase : InformerPhase α := .listing none []
  /-- when the next step is due; none if it never is -/
  wake : Option Millis
  items : List α := []
  ready : Bool := false
  /-- it met an object without a name and does nothing any more -/
  died : Bool := false
  /-- whether a list that begins and an object that goes are signs that all is well, and not only objects that come -/
  isTrusting : Bool := true
  /-- the faults that count for the next pause -/
  faults : Nat := 0
  lastFault : Option Millis := none
  deriving Repr

namespace Informer

variable {α : Type}

/-- An informer that begins at a time. -/
def start (now : Millis) : Informer α := { wake := some now }

/-- How many objects a page has at most. -/
def pageSize : Nat := 500

/-- The pause after so many faults: it doubles up to half a minute. -/
def pause (faults : Nat) : Millis := min (800 <<< min faults 16) 30000

/-- After so long without faults the pauses begin anew. -/
def forgiving : Millis := 120000

def fail (now : Millis) (phase : InformerPhase α) (m : Informer α) : Informer α :=
  let faults := if m.lastFault.any fun t => t + forgiving < now then 0 else m.faults
  { m with phase, wake := some (now + pause faults), faults := faults + 1, lastFault := some now }

/-- Takes a sign that all is well, an object that comes or another one: the pauses begin anew. -/
def recover (isObject : Bool) (m : Informer α) : Informer α :=
  if isObject || m.isTrusting then { m with faults := 0 } else m

def proceed (now : Millis) (phase : InformerPhase α) (m : Informer α) : Informer α := { m with phase, wake := some now }

/-- A list is being taken in. -/
def isListing (m : Informer α) : Bool :=
  match m.phase with
  | .listing .. => true
  | _ => false

/-- Waits for ever. -/
def idle (m : Informer α) : Informer α := { m with wake := none }

/-- Dies; the copy stays as it is. -/
def die (m : Informer α) : Informer α := { m with wake := none, died := true }

section

variable (k : ObjectKind α)

/-- Two objects are versions of one. -/
def isSame (a b : α) : Bool :=
  (k.metadata a).name.getD "" == (k.metadata b).name.getD "" && (k.metadata a).namespace == (k.metadata b).namespace

/-- A copy with an object in its present version. -/
def put (items : List α) (a : α) : List α :=
  if items.any (isSame k a) then items.map fun b => if isSame k a b then a else b else items ++ [a]

/-- A copy without an object. -/
def take (items : List α) (a : α) : List α := items.filter fun b => !isSame k a b

/-- A token or a version, unless it is empty. -/
def nonEmpty (s : Option String) : Option String := s.filter (· ≠ "")

/-- A page from which neither the next one nor the version of the list can be told. Its objects count for nothing. -/
def isLost (page : Api.Page α) : Bool := (nonEmpty page.next).isNone && (nonEmpty page.resourceVersion).isNone

def onPage (now : Millis) (found : List α) (page : Api.Page α) (m : Informer α) : Informer α :=
  let isNamed : Bool := page.items.all fun a => (k.metadata a).name.isSome
  let found := page.items.foldl (put k) found
  let fed := if page.items.isEmpty then m else m.recover true
  match nonEmpty page.next, nonEmpty page.resourceVersion with
  | none, none => m.fail now (.listing none [])
  | some next, _ => if isNamed then fed.proceed now (.listing (some next) found) else m.die
  | none, some version =>
    if isNamed then { fed.proceed now (.listed version) with items := found, ready := true } else m.die

/-- Takes a message; the messages after it are kept. -/
def onChange (now : Millis) (version : String) (rest : List String) (ends : Bool) (m : Informer α) :
    Change α → Informer α
  | .applied a version =>
    { (m.recover true).proceed now (.following version rest ends) with items := put k m.items a }
  | .removed a version =>
    { (m.recover false).proceed now (.following version rest ends) with items := take k m.items a }
  | .bookmark version => m.proceed now (.following version rest ends)
  | .fault true => m.fail now (.listing none [])
  | .fault false => m.fail now (.following version rest ends)
  | .brokenOff => m.proceed now (.following version rest ends)
  | .nameless => m.die

/-- The request to be told of the changes of a collection. -/
def followRequest (c : Api.Collection) (q : Api.ListQuery) (version : String) : Api.Request :=
  { method := .get
    path := c.path
    query := q.parameters ++
      [("watch", "true"), ("timeoutSeconds", "290"), ("allowWatchBookmarks", "true"), ("resourceVersion", version)] }

/-- Does what is next. Gives the objects of which a new version was seen. -/
def step {σ : Type} (server : Api.Server σ) (c : Api.Collection) (q : Api.ListQuery) (now : Millis) (m : Informer α)
    (world : σ) : (Informer α × List α) × σ :=
  match m.phase with
  | .listing page found =>
    let m := if page.isNone then m.recover false else m
    match server.run (c.list k.decode? { q with limit := some pageSize, page }) world with
    | (none, world) => ((m.idle, []), world)
    | (some (.error _), world) => ((m.fail now (.listing none []), []), world)
    | (some (.ok p), world) => ((m.onPage k now found p, if isLost p then [] else p.items), world)
  | .listed version =>
    match server.follow (followRequest c q version) world with
    | (none, world) => ((m.idle, []), world)
    | (some (.error _), world) => ((m.fail now (.listed version), []), world)
    | (some (.ok feed), world) =>
      ((m.proceed (now + feed.delay) (.following version feed.messages feed.ends), []), world)
  | .following version [] ends => ((if ends then m.proceed now (.listed version) else m.idle, []), world)
  | .following version (message :: rest) ends =>
    let change := Change.ofLine k message
    let seen := match change with
      | .applied a _ => [a]
      | _ => []
    ((m.onChange k now version rest ends change, seen), world)

/-- Takes the steps that are due up to a time, or until the informer is as it should be. Gives the time of the last
step. `fuel` bounds the number of steps. -/
def advance {σ : Type} (server : Api.Server σ) (c : Api.Collection) (q : Api.ListQuery) (limit : Millis)
    (enough : Informer α → Bool) : (fuel : Nat) → Millis → Informer α → σ → (Informer α × Millis) × σ
  | 0, now, m, world => ((m, now), world)
  | fuel + 1, now, m, world =>
    match m.wake with
    | none => ((m, now), world)
    | some t =>
      if limit < t || enough m then ((m, now), world)
      else
        let ((m, _), world) := m.step k server c q t world
        advance server c q limit enough fuel t m world

/-- The number of steps after which an informer that is to advance is left alone. -/
def patience : Nat := 100000

end

end Informer

end Reaper
