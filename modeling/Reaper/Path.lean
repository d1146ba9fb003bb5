import Reaper.Json
import Reaper.Text.Blank
import Reaper.Text.Digits

/-!
Paths into documents: `.spec.containers[0].image`.

A path is a list of steps. `Path.parse` reads the written form: keys after dots, a backslash before a character that
stands for itself, indexes and quoted keys in brackets, the whole optionally wrapped in braces and begun with a dollar
sign. `Path.resolve?` follows the steps, and what it reaches counts only when it is not null. `lookup?` does both, and a
path that cannot be read leads nowhere.
-/

namespace Reaper

/-- One step into a document. -/
inductive Step where
  | key (name : String)
  | index (i : Nat)
  deriving DecidableEq, Repr

namespace Step

def indexLimit : Nat := UInt64.size - 1

/-- Where one step leads. A key that is an index text also steps into an array. -/
def follow? (step : Step) (node : Json) : Option Json :=
  match step, node with
  | .key name, .object fields => Dictionary.lookup name fields
  | .index i, .array items => items[i]?
  | .key name, .array items => (Text.readNat? indexLimit name.toList).bind (items[·]?)
  | _, _ => none

end Step

/-- Why a path cannot be read; the text is the path as written. -/
inductive PathError where
  | empty
  | emptyStep (path : String)
  | unclosedBracket (path : String)
  deriving DecidableEq, Repr

def PathError.message : PathError → String
  | empty => "field path is empty"
  | emptyStep path => "field path '" ++ path ++ "' has an empty segment"
  | unclosedBracket path => "field path '" ++ path ++ "' has an unterminated bracket"

/-- A path with the text it was read from. -/
structure Path where
  raw : String
  steps : List Step
  deriving DecidableEq, Repr

namespace Path

/-- What is left between a first and a last character, if both are there. -/
def between? (opening closing : Char) (cs : List Char) : Option (List Char) :=
  match cs with
  | c :: rest =>
    if c = opening ∧ rest.getLast? = some closing then some rest.dropLast else none
  | [] => none

/-- The step that a bracket's trimmed content stands for: a quoted key, an index, or a bare key. -/
def bracketStep (inner : List Char) : Step :=
  match (between? '\x27' '\x27' inner).or (between? '\x22' '\x22' inner) with
  | some name => .key (String.ofList name)
  | none =>
    match Text.readNat? Step.indexLimit inner with
    | some i => .index i
    | none => .key (String.ofList inner)

/-- Where the reader stands: in a key (perhaps an empty one, perhaps just after a dot), after a backslash in a key, or
inside a bracket. -/
inductive Mode where
  | word (current : List Char) (afterDot : Bool)
  | escape (current : List Char)
  | bracket (inner : List Char)

/-- The steps with the key that has been read so far, if it has any characters. -/
def flush (steps : List Step) (current : List Char) : List Step :=
  if current.isEmpty then steps else steps ++ [.key (String.ofList current)]

/-- Reads the body of a path from a mode on; `raw` is for the messages. -/
def scan (raw : String) : Mode → List Step → List Char → Except PathError (List Step)
  | .word current afterDot, steps, [] =>
    if afterDot then .error (.emptyStep raw) else .ok (flush steps current)
  | .escape current, steps, [] => .ok (flush steps (current ++ ['\\']))
  | .bracket _, _, [] => .error (.unclosedBracket raw)
  | .word current afterDot, steps, c :: rest =>
    if c = '.' then
      if afterDot then .error (.emptyStep raw) else scan raw (.word [] true) (flush steps current) rest
    else if c = '\\' then scan raw (.escape current) steps rest
    else if c = '[' then scan raw (.bracket []) (flush steps current) rest
    else scan raw (.word (current ++ [c]) false) steps rest
  | .escape current, steps, c :: rest => scan raw (.word (current ++ [c]) false) steps rest
  | .bracket inner, steps, c :: rest =>
    if c = ']' then scan raw (.word [] false) (steps ++ [bracketStep (Text.trim inner)]) rest
    else scan raw (.bracket (inner ++ [c])) steps rest

/-- A path without its outer blanks, its braces and its dollar sign. -/
def body (cs : List Char) : List Char :=
  let trimmed := Text.trim cs
  let inner := match between? '\x7b' '\x7d' trimmed with
    | some inside => Text.trim inside
    | none => trimmed
  match inner with
  | '$' :: rest => rest
  | other => other

def parse (raw : String) : Except PathError Path :=
  match body raw.toList with
  | [] => .error .empty
  | ['.'] => .error .empty
  | cs =>
    match scan raw (.word [] false) [] cs with
    | .error e => .error e
    | .ok [] => .error .empty
    | .ok steps => .ok ⟨raw, steps⟩

def follow? : List Step → Json → Option Json
  | [], node => some node
  | step :: rest, node => (step.follow? node).bind (follow? rest)

/-- Where a path leads, null counting as nowhere. -/
def resolve? (p : Path) (doc : Json) : Option Json :=
  (follow? p.steps doc).filter (!·.isNull)

/-- Where a written path leads; one that cannot be read leads nowhere. -/
def lookup? (doc : Json) (raw : String) : Option Json :=
  match parse raw with
  | .ok p => p.resolve? doc
  | .error _ => none

end Path

end Reaper
