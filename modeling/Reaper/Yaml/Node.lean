import Reaper.Text.Digits
import Reaper.Binary64.Reader

/-!
YAML nodes and the core schema.

A document is a tree of scalars, sequences and mappings, in which a node may have a name and an alias may stand for a
node of that name. A scalar keeps the style it was written in, because only plain scalars have a type other than text:
truth values, whole numbers in three notations, floating-point numbers, and null.
-/

namespace Reaper.Yaml

/-- How a scalar was written. -/
inductive Style where
  | plain
  | quoted
  | literal
  | folded
  deriving DecidableEq, Repr

/-- A node of a document. Names are numbers here. -/
inductive Node where
  | scalar (tag : Option String) (style : Style) (text : String)
  | sequence (items : List Node)
  | mapping (entries : List (Node × Node))
  | named (name : Nat) (node : Node)
  | alias (name : Nat)
  deriving Repr, Inhabited

namespace Node

/-- Nothing written where a node could stand. -/
def empty : Node := .scalar none .plain ""

mutual

/-- The last node of a name, in the order in which nodes begin. -/
def lastNamed? (name : Nat) : Node → Option Node
  | .scalar .. => none
  | .sequence items => lastNamedOfItems? name items
  | .mapping entries => lastNamedOfEntries? name entries
  | .named n node => (lastNamed? name node).or (if n = name then some node else none)
  | .alias _ => none

/-- The last node of a name among items. -/
def lastNamedOfItems? (name : Nat) : List Node → Option Node
  | [] => none
  | item :: items => (lastNamedOfItems? name items).or (lastNamed? name item)

/-- The last node of a name among entries. -/
def lastNamedOfEntries? (name : Nat) : List (Node × Node) → Option Node
  | [] => none
  | (key, value) :: entries =>
    (lastNamedOfEntries? name entries).or ((lastNamed? name value).or (lastNamed? name key))

end

/-- The scalar, sequence or mapping that a node of a document means. -/
def meant (document : Node) : Node → Node
  | .named _ node => node
  | .alias name => (lastNamed? name document).getD empty
  | node => node

end Node

namespace Core

/-- The full name of a tag of the core schema. -/
def tagName (short : String) : String := "tag:yaml.org,2002:" ++ short

def isNull (s : String) : Bool := ["null", "Null", "NULL", "~"].contains s

def truth? (s : String) : Option Bool :=
  if ["true", "True", "TRUE"].contains s then some true
  else if ["false", "False", "FALSE"].contains s then some false
  else none

/-- The value of a digit in bases up to sixteen. -/
def baseDigit? (base : Nat) (c : Char) : Option Nat :=
  let v : Option Nat :=
    if Text.isDigit c then some (c.toNat - 48)
    else if 'a' ≤ c ∧ c ≤ 'f' then some (c.toNat - 87)
    else if 'A' ≤ c ∧ c ≤ 'F' then some (c.toNat - 55)
    else none
  v.filter (· < base)

/-- The number that digits of a base denote. -/
def inBase? (base : Nat) (cs : List Char) : Option Nat :=
  if cs.isEmpty then none
  else cs.foldlM (fun acc c => (baseDigit? base c).map (acc * base + ·)) 0

/-- Digits that begin with a zero and go on: text, not a number. -/
def isZeroLed (cs : List Char) : Bool :=
  match cs with
  | '0' :: d :: rest => (d :: rest).all Text.isDigit
  | _ => false

/-- A whole number without a minus sign: decimal, `0x`, `0o` or `0b`, after an optional plus sign. -/
def natural? (s : String) : Option Nat :=
  let body := match s.toList with
    | '+' :: rest => rest
    | cs => cs
  let based : Option Nat := match body with
    | '0' :: 'x' :: rest => inBase? 16 rest
    | '0' :: 'o' :: rest => inBase? 8 rest
    | '0' :: 'b' :: rest => inBase? 2 rest
    | _ => none
  match based with
  | some n => some n
  | none => if isZeroLed body then none else inBase? 10 body

/-- A floating-point number; infinities and not-a-number have words of their own, and a decimal too large for a finite
number is none. -/
def number? (s : String) : Option Binary64 :=
  let (plus, body) := match s.toList with
    | '+' :: rest => (true, rest)
    | cs => (false, cs)
  let signed := match body with
    | c :: _ => c == '+' || c == '-'
    | [] => false
  if plus && signed then none
  else if [".inf", ".Inf", ".INF"].contains (String.ofList body) then some (.infinite false)
  else if ["-.inf", "-.Inf", "-.INF"].contains s then some (.infinite true)
  else if [".nan", ".NaN", ".NAN"].contains s then some .nan
  else (Binary64.read? body).filter (·.isFinite)

end Core

end Reaper.Yaml
