import Reaper.Selector
import Reaper.Resource

/-!
The grammar of field selectors, read as the API server reads it.

A text is a list of terms separated by commas: `f=v`, `f==v` and `f!=v`; empty terms are passed over. In a value a
backslash stands before a comma, an equals sign or a backslash, and none of them stands there without one.
`FieldQuery.read?` gives the terms and `FieldQuery.holds` decides a resource by them.
-/

namespace Reaper

/-- The field of a resource that the API server knows by a name. -/
def Resource.serverField? (r : Resource) (field : String) : Option String :=
  if field = "metadata.name" then r.metadata.name
  else if field = "metadata.namespace" then r.metadata.namespace
  else none

/-- One term as the grammar has it. -/
inductive FieldTerm where
  | equals (field value : String)
  | differs (field value : String)
  deriving DecidableEq, Repr

/-- Whether a resource is as the term says. -/
def FieldTerm.holds (r : Resource) : FieldTerm → Bool
  | equals f v => r.serverField? f == some v
  | differs f v => r.serverField? f != some v

namespace FieldQuery

/-- The parts of a text between commas, with the characters of a part read so far. A backslash and the character after
it stay together. -/
def parts (current : List Char) : List Char → List (List Char)
  | [] => [current]
  | '\\' :: c :: rest => parts (current ++ ['\\', c]) rest
  | c :: rest => if c = ',' then current :: parts [] rest else parts (current ++ [c]) rest

/-- Parts a term at its first sign: what stands before, whether it asks for equality, and what stands after. -/
def sign? (before : List Char) : List Char → Option (List Char × Bool × List Char)
  | [] => none
  | '!' :: '=' :: rest => some (before, false, rest)
  | '=' :: '=' :: rest => some (before, true, rest)
  | c :: rest => if c = '=' then some (before, true, rest) else sign? (before ++ [c]) rest

/-- A character that stands in a value after a backslash only. -/
def isSpecial (c : Char) : Bool := c == ',' || c == '=' || c == '\\'

/-- The value that is meant by a written one. -/
def unescape? : List Char → Option (List Char)
  | [] => some []
  | '\\' :: c :: rest => if isSpecial c then (unescape? rest).map (c :: ·) else none
  | c :: rest => if isSpecial c then none else (unescape? rest).map (c :: ·)

def term? (part : List Char) : Option FieldTerm := do
  let (field, equal, written) ← sign? [] part
  let value ← unescape? written
  let term := if equal then FieldTerm.equals else FieldTerm.differs
  some (term (String.ofList field) (String.ofList value))

/-- The terms that a text denotes. -/
def read? (s : String) : Option (List FieldTerm) := ((parts [] s.toList).filter (· ≠ [])).mapM term?

/-- Whether a resource meets all terms. -/
def holds (q : List FieldTerm) (r : Resource) : Bool := q.all (·.holds r)

end FieldQuery

end Reaper
