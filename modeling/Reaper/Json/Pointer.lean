import Reaper.Json
import Reaper.Text.Digits

/-!
Pointers into JSON values: `/spec/versions/0/name`.

A pointer is a list of tokens, each after a slash; `~1` stands for a slash and `~0` for a tilde within a token. Into an
array a token leads when it is an index written without a sign and without leading zeros.
-/

namespace Reaper.Json

namespace Pointer

def unescaped : List Char → List Char
  | '~' :: '1' :: rest => '/' :: unescaped rest
  | '~' :: '0' :: rest => '~' :: unescaped rest
  | c :: rest => c :: unescaped rest
  | [] => []

/-- The index that a token stands for. -/
def index? (token : List Char) : Option Nat :=
  match token with
  | '0' :: _ :: _ => none
  | _ => (Text.natOfDigits? token).filter (· < UInt64.size)

def follow? (node : Json) (token : List Char) : Option Json :=
  match node with
  | .object _ => node.get? (String.ofList token)
  | .array _ => (index? token).bind node.item?
  | _ => none

/-- The tokens of a pointer; the empty pointer has none. -/
def tokens? (pointer : List Char) : Option (List (List Char)) :=
  match pointer with
  | [] => some []
  | '/' :: rest => some ((rest.splitOn '/').map unescaped)
  | _ => none

end Pointer

/-- The value that a pointer leads to. -/
def at? (j : Json) (pointer : String) : Option Json := do
  (← Pointer.tokens? pointer.toList).foldlM Pointer.follow? j

end Reaper.Json
