import Reaper.Binary64
import Reaper.Dictionary

/-!
JSON values.

Whole numbers and floating-point numbers are different values (`3` and `3.0`), because the text of a number is what
labels, selectors and mappings are compared with. An object is a list of fields. Settled values have their fields in
increasing key order, each name once, and no part without a value; what is read but not yet settled may repeat fields
and have such parts. `Json.settled?` settles a value: of two fields with one name the later wins.
-/

namespace Reaper

/-- A JSON value. -/
inductive Json where
  | null
  | bool (b : Bool)
  | int (i : Int)
  | float (x : Binary64)
  | string (s : String)
  | array (items : List Json)
  | object (fields : List (String × Json))
  /-- a part of a text that has no value, and that only harms who looks at it -/
  | unreadable
  deriving Repr, Inhabited

namespace Json

def get? : Json → String → Option Json
  | object fields, key => Dictionary.lookup key fields
  | _, _ => none

def item? : Json → Nat → Option Json
  | array items, i => items[i]?
  | _, _ => none

/-- The field of an object, with a field that is null taken for one that is absent. -/
def present? (j : Json) (key : String) : Option Json :=
  match j.get? key with
  | some null => none
  | found => found

def isNull : Json → Bool
  | null => true
  | _ => false

/-- The object with the given fields, in key order. -/
def ofFields (fields : List (String × Json)) : Json :=
  object (fields.foldl (fun fs e => Dictionary.insertEntry e.1 e.2 fs) [])

/-- The object with the given fields; those without a value are left out. -/
def ofPresent (fields : List (String × Option Json)) : Json :=
  ofFields (fields.filterMap fun (k, v) => v.map (k, ·))

/-- A dictionary of texts as an object. -/
def ofTexts (d : Dictionary String) : Json := object (d.entries.map fun (k, v) => (k, string v))

/-- A value, or null where there is none. -/
def orNull : Option Json → Json := (·.getD null)

def ofNat (n : Nat) : Json := int n

/-- The object with one field replaced or added. -/
def withField (j : Json) (key : String) (value : Json) : Json :=
  match j with
  | object fields => object (Dictionary.insertEntry key value fields)
  | other => other

def typeName : Json → String
  | null => "null"
  | bool _ => "bool"
  | int _ | float _ => "number"
  | string _ => "string"
  | array _ => "array"
  | object _ => "object"
  | unreadable => "unreadable"

mutual

/-- The value with the fields of all objects in order, if no part is unreadable. -/
def settled? : Json → Option Json
  | array items => (settledItems? items).map array
  | object fields => (settledFields? fields).map ofFields
  | unreadable => none
  | j => some j

def settledItems? : List Json → Option (List Json)
  | [] => some []
  | j :: rest => do some ((← settled? j) :: (← settledItems? rest))

/-- The fields of an object, each settled. -/
def settledFields? : List (String × Json) → Option (List (String × Json))
  | [] => some []
  | (k, j) :: rest => do some ((k, ← settled? j) :: (← settledFields? rest))

end

mutual

/-- Applies a merge patch: objects are merged field by field, null removes a field, anything else replaces. -/
def merge (target : Json) : Json → Json
  | object fields =>
    let start := match target with
      | object fs => fs
      | _ => []
    object (mergeFields start fields)
  | patch => patch

/-- Applies the fields of a merge patch to the fields of an object. -/
def mergeFields (target : List (String × Json)) : List (String × Json) → List (String × Json)
  | [] => target
  | (k, v) :: rest =>
    let next := match v with
      | null => target.filter (fun e => e.1 ≠ k)
      | other => Dictionary.insertEntry k (merge ((Dictionary.lookup k target).getD null) other) target
    mergeFields next rest

end

end Json

end Reaper
