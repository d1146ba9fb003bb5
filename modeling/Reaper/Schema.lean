import Reaper.Json

/-!
Schemas of records, in the form that the API server takes them.

A schema is a type together with remarks: a description, a title, a default, and whether null is allowed. Of two remarks
of one sort the outer one counts, so a field's description stands before that of its type.
-/

namespace Reaper

/-- The width of a whole number. -/
inductive WholeFormat where
  | int32
  | int64
  | uint32
  | uint64
  deriving DecidableEq, Repr

namespace WholeFormat

def name : WholeFormat → String
  | int32 => "int32"
  | int64 => "int64"
  | uint32 => "uint32"
  | uint64 => "uint64"

/-- The format has no negative numbers. -/
def isUnsigned : WholeFormat → Bool
  | int32 | int64 => false
  | uint32 | uint64 => true

end WholeFormat

/-- A schema. -/
inductive Schema where
  | text
  | truth
  | whole (format : WholeFormat)
  /-- one of several names -/
  | choice (names : List String)
  | list (item : Schema)
  /-- an object with any keys -/
  | dictionary (value : Schema)
  /-- an object with the given fields, some of them required -/
  | record (fields : List (String × Schema)) (required : List String)
  | described (description : String) (s : Schema)
  | titled (title : String) (s : Schema)
  | withDefault (value : Json) (s : Schema)
  | nullable (s : Schema)
  deriving Inhabited

namespace Schema

/-- The object of a type of the given name and further fields. -/
def ofType (name : String) (more : List (String × Json)) : Json :=
  Json.ofFields (("type", .string name) :: more)

mutual

def encode : Schema → Json
  | text => ofType "string" []
  | truth => ofType "boolean" []
  | whole f =>
    ofType "integer"
      (("format", .string f.name) :: if f.isUnsigned then [("minimum", .float (.finite 0))] else [])
  | choice names => ofType "string" [("enum", .array (names.map .string))]
  | list item => ofType "array" [("items", item.encode)]
  | dictionary value => ofType "object" [("additionalProperties", value.encode)]
  | record fields required =>
    ofType "object"
      (("properties", Json.ofFields (encodeFields fields)) ::
        if required.isEmpty then [] else [("required", .array (required.map .string))])
  | described d s => s.encode.withField "description" (.string d)
  | titled t s => s.encode.withField "title" (.string t)
  | withDefault v s => s.encode.withField "default" v
  | nullable s => s.encode.withField "nullable" (.bool true)

def encodeFields : List (String × Schema) → List (String × Json)
  | [] => []
  | (name, s) :: rest => (name, s.encode) :: encodeFields rest

end

end Schema

end Reaper
