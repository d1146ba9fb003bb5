import Reaper.Api
import Reaper.Policy.Target
import Reaper.Resource

/-!
Collections: all objects of one kind, in one namespace or in all.

A collection is a path of the server; an object is a path below it. A list is read page by page: each page says which
version of the collection it shows, and how to ask for the next page.
-/

namespace Reaper.Api

/-- A collection of objects. -/
structure Collection where
  /-- empty for the core group -/
  group : String
  version : String
  «namespace» : Option String
  plural : String
  deriving DecidableEq, Repr

namespace Collection

def path (c : Collection) : String :=
  let root := if c.group.isEmpty then "/api/" else "/apis/" ++ c.group ++ "/"
  let scope := match c.namespace with
    | some ns => "/namespaces/" ++ ns
    | none => ""
  root ++ c.version ++ scope ++ "/" ++ c.plural

def objectPath (c : Collection) (name : String) : String := c.path ++ "/" ++ name

/-- The objects that a target is about, in a namespace or in all. -/
def ofTarget (t : WatchTarget) («namespace» : Option String) : Collection :=
  { group := t.group, version := t.version, «namespace», plural := t.plural }

/-- The policies of a namespace or of all. -/
def policies («namespace» : Option String) : Collection :=
  { group := Policy.apiGroup, version := Policy.version, «namespace», plural := Policy.plural }

end Collection

/-! ## Lists -/

/-- What part of a collection is asked for. -/
structure ListQuery where
  labelSelector : Option String := none
  fieldSelector : Option String := none
  limit : Option Nat := none
  /-- the mark of the page that is asked for -/
  page : Option String := none
  deriving DecidableEq, Repr

namespace ListQuery

def ofTarget (t : WatchTarget) : ListQuery :=
  let (labelSelector, fieldSelector) := t.selectors
  { labelSelector, fieldSelector }

def parameters (q : ListQuery) : List (String × String) :=
  [("labelSelector", q.labelSelector), ("fieldSelector", q.fieldSelector), ("limit", q.limit.map Text.natText),
    ("continue", q.page)].filterMap fun (k, v) => v.map (k, ·)

end ListQuery

/-- One page of a collection. -/
structure Page (α : Type) where
  items : List α
  resourceVersion : Option String
  /-- the mark of the next page -/
  next : Option String
  deriving Repr

namespace Page

/-- Reads a page. Items that are null count as none. -/
def decode? {α : Type} (item : Json.Decoder α) (j : Json) : Option (Page α) := do
  let (r, _) ← Resource.parts? ["metadata", "items"] j
  let metadata ← r.defaulted? "metadata" (Json.object []) Metadata.anyObject?
  let items ← r.required? "items" (Json.nullable? (Json.list? item))
  let _ ← metadata.lastOf? "remainingItemCount" Json.int64?
  let _ ← metadata.lastOf? "selfLink" Json.text?
  some
    { items := items.getD []
      resourceVersion := ← metadata.lastOf? "resourceVersion" Json.text?
      next := ← metadata.lastOf? "continue" Json.text? }

end Page

namespace Collection

def list {α : Type} (c : Collection) (item : Json.Decoder α) (q : ListQuery) : Exchange (Except Fault (Page α)) :=
  call { method := .get, path := c.path, query := q.parameters } (Response.decode (Page.decode? item))

end Collection

/-! ## Deletions -/

/-- Reads the server's account of what it did with a deletion; only its form is of interest. -/
def outcome? (j : Json) : Option Unit := do
  let r ← j.record? ["status", "code", "message", "reason", "details"]
  let _ ← r.optional? "status" (Json.choice? [("Success", ()), ("Failure", ())])
  let _ ← r.defaulted? "code" 0 (Json.natural? 65535)
  let _ ← r.defaulted? "message" "" Json.text?
  let _ ← r.defaulted? "reason" "" Json.text?
  let detailFields := ["name", "group", "kind", "uid", "causes", "retryAfterSeconds"]
  let some details ← r.optional? "details" (Json.record? detailFields)
    | some ()
  let _ ← details.defaulted? "name" "" Json.text?
  let _ ← details.defaulted? "group" "" Json.text?
  let _ ← details.defaulted? "kind" "" Json.text?
  let _ ← details.defaulted? "uid" "" Json.text?
  let _ ← details.defaulted? "retryAfterSeconds" 0 Json.nat32?
  let causes ← details.defaulted? "causes" [] (Json.list? (Json.record? ["reason", "message", "field"]))
  causes.forM fun cause => do
    let _ ← cause.defaulted? "reason" "" Json.text?
    let _ ← cause.defaulted? "message" "" Json.text?
    let _ ← cause.defaulted? "field" "" Json.text?
    some ()

/-- Reads the reply to a deletion: an account of it, or the resource that is going away. No part of it is unreadable. -/
def deletionReply? (j : Json) : Option Unit := do
  match (← j.settled?).get? "kind" with
  | some (.string "Status") => outcome? j
  | _ => (Resource.decode? j).map fun _ => ()

namespace Collection

def delete (c : Collection) (name : String) (options : Json) : Exchange (Except Fault Unit) :=
  callNamed name { method := .delete, path := c.objectPath name, content := some (.json, options) }
    (Response.decode deletionReply?)

end Collection

end Reaper.Api
