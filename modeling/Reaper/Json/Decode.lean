import Reaper.Json

/-!
Decoding records from JSON values.

A decoder gives the value or nothing; what it reads need not be settled. A record is an object, or the list of its
fields in their order; unknown fields are passed over, whatever they hold. A field is required, optional (missing or
null), or has a default that stands in only when it is missing. Most records refuse a field that occurs twice
(`record?`); some read every occurrence and keep the last (`lastOf?`). Numbers are whole numbers of the field's range;
a fraction, even of zero, is refused.
-/

namespace Reaper.Json

/-- Reads a value of a type, or fails. -/
abbrev Decoder (α : Type) := Json → Option α

/-- The values of a field, as often as it occurs. -/
def occurrences (key : String) : Json → List Json
  | object fields => (fields.filter (·.1 == key)).map (·.2)
  | _ => []

/-- A record with the given field names as an object. None of them occurs twice. As a list it has at least `least` of
its fields. -/
def recordFrom? (least : Nat) (names : List String) : Json → Option Json
  | object fields =>
    if names.all fun n => ((object fields).occurrences n).length ≤ 1 then some (object fields) else none
  | array items =>
    if least ≤ items.length && items.length ≤ names.length then some (ofFields (names.zip items)) else none
  | _ => none

/-- A record with the given field names as an object. As a list it may break off anywhere. -/
def record? (names : List String) : Json → Option Json := recordFrom? 0 names

def text? : Decoder String
  | string s => some s
  | _ => none

def truth? : Decoder Bool
  | bool b => some b
  | _ => none

def whole? (low high : Int) : Decoder Int
  | int i => if low ≤ i ∧ i ≤ high then some i else none
  | _ => none

/-- A natural number up to a limit. -/
def natural? (limit : Nat) : Decoder Nat
  | int i => if 0 ≤ i ∧ i ≤ limit then some i.toNat else none
  | _ => none

def list? {α : Type} (item : Decoder α) : Decoder (List α)
  | array items => items.mapM item
  | _ => none

def dictionary? {α : Type} (value : Decoder α) : Decoder (Dictionary α)
  | object fields => (fields.mapM fun (e : String × Json) => (value e.2).map (e.1, ·)).map Dictionary.ofList
  | _ => none

/-- The name of a choice: a text, or an object with that name for its only field and nothing in it. -/
def choiceName? : Decoder String
  | string s => some s
  | object [(k, null)] => some k
  | _ => none

/-- One of a list of named choices. -/
def choice? {α : Type} (choices : List (String × α)) : Decoder α :=
  fun j => j.choiceName?.bind fun name => Dictionary.lookup name choices

/-- A value, or none for null. -/
def nullable? {α : Type} (value : Decoder α) : Decoder (Option α)
  | null => some none
  | j => (value j).map some

/-- A field that has to be there. -/
def required? {α : Type} (key : String) (value : Decoder α) (j : Json) : Option α :=
  (j.get? key).bind value

/-- A field that may be missing or null. -/
def optional? {α : Type} (key : String) (value : Decoder α) (j : Json) : Option (Option α) :=
  match j.get? key with
  | none => some none
  | some v => nullable? value v

/-- A field with a default for when it is missing. -/
def defaulted? {α : Type} (key : String) (default : α) (value : Decoder α) (j : Json) : Option α :=
  match j.get? key with
  | none => some default
  | some v => value v

/-- A field that may be missing or null, and may occur again: each occurrence has to be readable, and the last
counts. -/
def lastOf? {α : Type} (key : String) (value : Decoder α) (j : Json) : Option (Option α) :=
  ((j.occurrences key).mapM (nullable? value)).map fun found => found.getLast?.join

/-- The limits of the fixed-width whole numbers. -/
def int32Limits : Int × Int := (-2147483648, 2147483647)

def int32? : Decoder Int := whole? int32Limits.1 int32Limits.2

def int64? : Decoder Int := whole? (-9223372036854775808) 9223372036854775807

def nat32? : Decoder Nat := natural? (UInt32.size - 1)

def nat64? : Decoder Nat := natural? (UInt64.size - 1)

end Reaper.Json
