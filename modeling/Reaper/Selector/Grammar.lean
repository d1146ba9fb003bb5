import Reaper.Selector

/-!
The grammar of label selectors, read as the API server reads it.

A text is a list of requirements separated by commas: `k=v`, `k==v`, `k!=v`, `k in (v,…)`, `k notin (v,…)`, `k` and
`!k`. Words are made of letters, digits, `-`, `_`, `.` and `/`; a value may be left out after a sign and inside the
parentheses. `LabelQuery.read?` gives the requirements and `LabelQuery.holds` decides a label map by them.
-/

namespace Reaper

/-- One requirement as the grammar has it. -/
inductive LabelTerm where
  | equals (key value : String)
  | differs (key value : String)
  | isIn (key : String) (values : List String)
  | notIn (key : String) (values : List String)
  | present (key : String)
  | absent (key : String)
  deriving DecidableEq, Repr

/-- Whether a label map is as the requirement says. -/
def LabelTerm.holds (labels : Dictionary String) : LabelTerm → Bool
  | equals k v => labels.get? k == some v
  | differs k v => labels.get? k != some v
  | isIn k vs => (labels.get? k).any vs.contains
  | notIn k vs => !(labels.get? k).any vs.contains
  | present k => (labels.get? k).isSome
  | absent k => (labels.get? k).isNone

namespace LabelQuery

/-- The signs and words of the grammar. -/
inductive Token where
  | word (s : String)
  | comma
  | opening
  | closing
  | equals
  | differs
  | bang
  deriving DecidableEq, Repr

def isWordChar (c : Char) : Bool :=
  c.isAlphanum || c == '-' || c == '_' || c == '.' || c == '/'

/-- Puts a word in front of tokens, unless it is empty. -/
def withWord (current : List Char) (rest : List Token) : List Token :=
  if current.isEmpty then rest else .word (String.ofList current) :: rest

/-- The tokens of a text, with the characters of a word read so far; nothing when a character has no place. -/
def tokensFrom? (current : List Char) : List Char → Option (List Token)
  | [] => some (withWord current [])
  | '=' :: '=' :: rest => (tokensFrom? [] rest).map fun ts => withWord current (.equals :: ts)
  | '!' :: '=' :: rest => (tokensFrom? [] rest).map fun ts => withWord current (.differs :: ts)
  | c :: rest =>
    if isWordChar c then tokensFrom? (current ++ [c]) rest
    else if c = ' ' then (tokensFrom? [] rest).map (withWord current)
    else if c = ',' then (tokensFrom? [] rest).map fun ts => withWord current (.comma :: ts)
    else if c = '(' then (tokensFrom? [] rest).map fun ts => withWord current (.opening :: ts)
    else if c = ')' then (tokensFrom? [] rest).map fun ts => withWord current (.closing :: ts)
    else if c = '=' then (tokensFrom? [] rest).map fun ts => withWord current (.equals :: ts)
    else if c = '!' then (tokensFrom? [] rest).map fun ts => withWord current (.bang :: ts)
    else none

def tokens? (s : String) : Option (List Token) := tokensFrom? [] s.toList

/-- The values up to the closing parenthesis; `acc` holds those read, in reverse. A missing value is the empty one. -/
def values? (acc : List String) : List Token → Option (List String × List Token)
  | .word v :: .comma :: rest => values? (v :: acc) rest
  | .word v :: .closing :: rest => some ((v :: acc).reverse, rest)
  | .comma :: rest => values? ("" :: acc) rest
  | .closing :: rest => some (("" :: acc).reverse, rest)
  | _ => none

/-- A value after a sign, which may be missing. -/
def value : List Token → String × List Token
  | .word v :: rest => (v, rest)
  | rest => ("", rest)

def term? : List Token → Option (LabelTerm × List Token)
  | .bang :: .word k :: rest => some (.absent k, rest)
  | .word k :: .equals :: rest => let (v, r) := value rest; some (.equals k v, r)
  | .word k :: .differs :: rest => let (v, r) := value rest; some (.differs k v, r)
  | .word k :: .word "in" :: .opening :: rest => (values? [] rest).map fun (vs, r) => (.isIn k vs, r)
  | .word k :: .word "notin" :: .opening :: rest => (values? [] rest).map fun (vs, r) => (.notIn k vs, r)
  | .word k :: rest => some (.present k, rest)
  | _ => none

/-- The requirements of a token list; `fuel` bounds their number. -/
def terms? : Nat → List Token → Option (List LabelTerm)
  | 0, _ => none
  | fuel + 1, ts => do
    let (t, rest) ← term? ts
    match rest with
    | [] => some [t]
    | .comma :: more => (terms? fuel more).map (t :: ·)
    | _ => none

/-- The requirements that a text denotes; the empty text has none. -/
def read? (s : String) : Option (List LabelTerm) := do
  let ts ← tokens? s
  if ts.isEmpty then some [] else terms? ts.length ts

/-- Whether a label map meets all requirements. -/
def holds (q : List LabelTerm) (labels : Dictionary String) : Bool := q.all (·.holds labels)

end LabelQuery

end Reaper
