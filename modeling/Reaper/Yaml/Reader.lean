import Reaper.Yaml.Token

/-!
Reading YAML documents.

`document?` reads a text of one document as a node; a text without any content is the empty node. Between it and the
text stand the tokens: a node is made of its properties (an anchor and a tag) and of a scalar or the tokens of a
collection.

Anchors are numbered by how many names were known before, so that the same name declared anew shares the number of the
next new name; an alias means the last node of its number.
-/

namespace Reaper.Yaml

/-- Tokens still to be read, with the numbers of the anchors so far and the meaning of handles. -/
structure Cursor where
  rest : List Token
  anchors : List (String × Nat) := []
  handles : Handles := Handles.initial

namespace Cursor

/-- The next token is one of these, or there is none. -/
def ends (closers : List Token) (c : Cursor) : Bool := c.rest.head?.all closers.contains

def advance (c : Cursor) : Cursor := { c with rest := c.rest.drop 1 }

/-- The cursor after a token of that kind, if it comes next. -/
def after? (t : Token) (c : Cursor) : Option Cursor := if c.rest.head? = some t then some c.advance else none

/-- A name for the node that begins here. -/
def declare (name : String) (c : Cursor) : Nat × Cursor :=
  let number := c.anchors.length
  (number, { c with anchors := (name, number) :: c.anchors.filter (·.1 != name) })

end Cursor

/-- What may stand before a node: an anchor and a tag, in either order. -/
structure Properties where
  anchor : Option String := none
  tag : Option Tag := none

namespace Properties

def read (c : Cursor) : Properties × Cursor :=
  match c.rest with
  | .anchor a :: .tag t :: _ => (⟨some a, some t⟩, c.advance.advance)
  | .tag t :: .anchor a :: _ => (⟨some a, some t⟩, c.advance.advance)
  | .anchor a :: _ => (⟨some a, none⟩, c.advance)
  | .tag t :: _ => (⟨none, some t⟩, c.advance)
  | _ => ({}, c)

def isEmpty (p : Properties) : Bool := p.anchor.isNone && p.tag.isNone

end Properties

/-- A scalar with its tag; the tag `!` is none. -/
def Node.ofScalar (tag : Option String) (style : Style) (text : String) : Node :=
  .scalar (tag.filter (· ≠ "!")) style text

mutual

/-- A node. Block collections may come in block context only; items without indentation may come after the marks of keys
and values. -/
def node? (fuel : Nat) (block loose : Bool) (c : Cursor) : Option (Node × Cursor) :=
  match fuel with
  | 0 => none
  | fuel + 1 =>
    match c.rest with
    | .alias name :: _ => do
      let (_, number) ← c.anchors.find? (·.1 == name)
      some (.alias number, c.advance)
    | _ => do
      let (properties, c) := Properties.read c
      let tag ← match properties.tag with
        | some t => (c.handles.expand? t).map some
        | none => some none
      match properties.anchor with
      | some name =>
        let (number, c) := c.declare name
        let (n, d) ← content? fuel block loose false tag c
        some (.named number n, d)
      | none => content? fuel block loose tag.isNone tag c

/-- A node without its properties. Nothing at all is the empty node after properties, and an error if it is `bare`. -/
def content? (fuel : Nat) (block loose bare : Bool) (tag : Option String) (c : Cursor) : Option (Node × Cursor) :=
  match fuel with
  | 0 => none
  | fuel + 1 =>
    match c.rest with
    | .scalar style text :: _ => some (Node.ofScalar tag style text, c.advance)
    | .flowSequence :: _ => (flowItems? fuel true [] c.advance).map fun (items, d) => (.sequence items, d)
    | .flowMapping :: _ => (flowEntries? fuel true [] c.advance).map fun (entries, d) => (.mapping entries, d)
    | t :: _ =>
      if t = .item && loose then (looseItems? fuel [] c).map fun (items, d) => (.sequence items, d)
      else if t = .blockSequence && block then
        (blockItems? fuel [] c.advance).map fun (items, d) => (.sequence items, d)
      else if t = .blockMapping && block then
        (blockEntries? fuel [] c.advance).map fun (entries, d) => (.mapping entries, d)
      else if bare then none
      else some (.scalar tag .plain "", c)
    | [] => if bare then none else some (.scalar tag .plain "", c)

/-- A node, or the empty node before one of the closing tokens. -/
def nodeBefore? (fuel : Nat) (closers : List Token) (block loose : Bool) (c : Cursor) : Option (Node × Cursor) :=
  match fuel with
  | 0 => none
  | fuel + 1 => if c.ends closers then some (.empty, c) else node? fuel block loose c

/-- The items of a block sequence, up to its end. -/
def blockItems? (fuel : Nat) (acc : List Node) (c : Cursor) : Option (List Node × Cursor) :=
  match fuel with
  | 0 => none
  | fuel + 1 =>
    match c.rest with
    | .item :: _ => do
      let (n, d) ← nodeBefore? fuel [.item, .blockEnd] true false c.advance
      blockItems? fuel (n :: acc) d
    | .blockEnd :: _ => some (acc.reverse, c.advance)
    | _ => none

/-- The items of a sequence at the column of the mapping around it. -/
def looseItems? (fuel : Nat) (acc : List Node) (c : Cursor) : Option (List Node × Cursor) :=
  match fuel with
  | 0 => none
  | fuel + 1 =>
    match c.rest with
    | .item :: _ => do
      let (n, d) ← nodeBefore? fuel [.item, .key, .value, .blockEnd] true false c.advance
      looseItems? fuel (n :: acc) d
    | _ => some (acc.reverse, c)

/-- The entries of a block mapping, up to its end. A key may lack its value. -/
def blockEntries? (fuel : Nat) (acc : List (Node × Node)) (c : Cursor) : Option (List (Node × Node) × Cursor) :=
  match fuel with
  | 0 => none
  | fuel + 1 =>
    match c.rest with
    | .key :: _ => do
      let closers := [.key, .value, .blockEnd]
      let (key, d) ← nodeBefore? fuel closers true true c.advance
      let (value, e) ← match d.after? .value with
        | some d => nodeBefore? fuel closers true true d
        | none => some (.empty, d)
      blockEntries? fuel ((key, value) :: acc) e
    | .blockEnd :: _ => some (acc.reverse, c.advance)
    | _ => none

/-- The value of a key in a flow collection, if its mark comes next; a value may be missing. -/
def flowValue? (fuel : Nat) (closer : Token) (c : Cursor) : Option (Node × Cursor) :=
  match fuel with
  | 0 => none
  | fuel + 1 =>
    match c.after? .value with
    | some d => nodeBefore? fuel [.comma, closer] false false d
    | none => some (.empty, c)

/-- The items of a flow sequence, up to its end. A pair with a marked key is a mapping of its own; the token after the
mark counts for nothing if no key begins there. -/
def flowItems? (fuel : Nat) (isFirst : Bool) (acc : List Node) (c : Cursor) : Option (List Node × Cursor) :=
  match fuel with
  | 0 => none
  | fuel + 1 => do
    match c.after? .flowSequenceEnd with
    | some d => some (acc.reverse, d)
    | none =>
      let c ← if isFirst then some c else c.after? .comma
      match c.rest with
      | .flowSequenceEnd :: _ => some (acc.reverse, c.advance)
      | .key :: _ =>
        let d := c.advance
        let (key, d) ←
          if d.ends [.value, .comma, .flowSequenceEnd] then some (.empty, d.advance) else node? fuel false false d
        let (value, e) ← flowValue? fuel .flowSequenceEnd d
        flowItems? fuel false (.mapping [(key, value)] :: acc) e
      | _ =>
        let (n, d) ← node? fuel false false c
        flowItems? fuel false (n :: acc) d

/-- The entries of a flow mapping, up to its end. A key without a mark has no value. -/
def flowEntries? (fuel : Nat) (isFirst : Bool) (acc : List (Node × Node)) (c : Cursor) :
    Option (List (Node × Node) × Cursor) :=
  match fuel with
  | 0 => none
  | fuel + 1 => do
    match c.after? .flowMappingEnd with
    | some d => some (acc.reverse, d)
    | none =>
      let c ← if isFirst then some c else c.after? .comma
      match c.rest with
      | .flowMappingEnd :: _ => some (acc.reverse, c.advance)
      | .key :: _ =>
        let (key, d) ← nodeBefore? fuel [.value, .comma, .flowMappingEnd] false false c.advance
        let (value, e) ← flowValue? fuel .flowMappingEnd d
        flowEntries? fuel false ((key, value) :: acc) e
      | _ =>
        let (n, d) ← node? fuel false false c
        flowEntries? fuel false ((n, .empty) :: acc) d

end

/-- The directives before a document: at most one version, which is 1.1 or 1.2, and no handle twice. The handles that
need no directive keep a meaning that a directive gives them. -/
def directives? (versioned : Bool) (handles : Handles) : List Token → Option (Handles × List Token)
  | .directive (.version major minor) :: rest =>
    if versioned || major != 1 || (minor != 1 && minor != 2) then none else directives? true handles rest
  | .directive (.handle name expansion) :: rest =>
    if handles.any (·.1 == name) then none else directives? versioned ((name, expansion) :: handles) rest
  | rest => some (handles ++ Handles.initial, rest)

/-- The one document of some tokens, with nothing but marks of its end behind it. -/
def ofTokens? (tokens : List Token) : Option Node := do
  let fuel := 4 * tokens.length + 8
  let (n, c) ← match tokens with
    | [] => some (.empty, ⟨[], [], []⟩)
    | .directive _ :: _ | .documentStart :: _ => do
      let (handles, rest) ← directives? false [] tokens
      let c ← Cursor.after? .documentStart { rest, handles }
      match c.rest with
      | .directive _ :: _ => some (.empty, c)
      | _ => nodeBefore? fuel [.documentStart, .documentEnd] true false c
    | _ => node? fuel true false { rest := tokens }
  if c.rest.all (· == .documentEnd) then some n else none

def document? (text : String) : Option Node := (Token.ofText? text).bind ofTokens?

end Reaper.Yaml
