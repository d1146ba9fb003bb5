import Reaper.Yaml.Scalar
import Reaper.Yaml.Tag

/-!
Tokens of a YAML text.

`Token.ofText?` cuts a text into tokens. Indentation becomes tokens that open and close block collections. The token
of a key without a mark of its own is found late: where a node begins that may be such a key, its place is remembered,
and the token is put there when a colon follows on the same line and within 1024 bytes.
-/

namespace Reaper.Yaml

/-- The tokens of a text. -/
inductive Token where
  | directive (d : Directive)
  | documentStart
  | documentEnd
  | blockSequence
  | blockMapping
  | blockEnd
  | flowSequence
  | flowSequenceEnd
  | flowMapping
  | flowMappingEnd
  /-- the hyphen before an item -/
  | item
  /-- the comma between the parts of a flow collection -/
  | comma
  | key
  | value
  | alias (name : String)
  | anchor (name : String)
  | tag (t : Tag)
  | scalar (style : Style) (text : String)
  deriving DecidableEq, Repr

/-- Where a key without a mark may have begun. -/
structure KeyStart where
  /-- the number of tokens before it -/
  index : Nat
  /-- whether it must turn out to be a key, since it begins a line of a block mapping -/
  isRequired : Bool
  column : Nat
  line : Nat
  offset : Nat

namespace KeyStart

/-- A colon at that place comes too late for the key. -/
def isStale (k : KeyStart) (p : Place) : Bool := k.line < p.line || k.offset + 1024 < p.offset

end KeyStart

/-- A text cut into tokens up to a place. -/
structure Cutter where
  place : Place
  /-- the tokens so far, in reverse -/
  tokens : List Token := []
  /-- the column of the innermost block collection, −1 outside of all -/
  indent : Int := -1
  /-- the columns of the collections around it -/
  outer : List Int := []
  /-- a possible key of the innermost flow collection, or of the block context if there is none -/
  keyStart : Option KeyStart := none
  /-- the possible keys around the flow collections that are open -/
  outerKeys : List (Option KeyStart) := []
  /-- whether a key may begin at the place -/
  keyAllowed : Bool := true

namespace Cutter

/-- Inside some flow collection. -/
def inFlow (c : Cutter) : Bool := !c.outerKeys.isEmpty

def emit (t : Token) (c : Cutter) : Cutter := { c with tokens := t :: c.tokens }

/-- A token put after the first `index` ones. -/
def insert (index : Nat) (t : Token) (c : Cutter) : Cutter :=
  let later := c.tokens.length - index
  { c with tokens := c.tokens.take later ++ t :: c.tokens.drop later }

def moved (p : Place) (c : Cutter) : Cutter := { c with place := p }

/-- A possible key, unless a colon would come too late for it; one that must be a key is an error then. -/
def fresh? (p : Place) (key : Option KeyStart) : Option (Option KeyStart) :=
  match key with
  | some k => if k.isStale p then (if k.isRequired then none else some none) else some key
  | none => some none

/-- Gives up the possible keys for which a colon would come too late. -/
def dropStale? (c : Cutter) : Option Cutter := do
  some { c with keyStart := ← fresh? c.place c.keyStart, outerKeys := ← c.outerKeys.mapM (fresh? c.place) }

/-- Gives up the innermost possible key. -/
def dropKey? (c : Cutter) : Option Cutter :=
  if c.keyStart.any (·.isRequired) then none else some { c with keyStart := none }

/-- What begins here may turn out to be a key. -/
def saveKey? (c : Cutter) : Option Cutter := do
  if !c.keyAllowed then return c
  let key : KeyStart :=
    { index := c.tokens.length
      isRequired := !c.inFlow && c.indent == c.place.column
      column := c.place.column
      line := c.place.line
      offset := c.place.offset }
  some { ← c.dropKey? with keyStart := some key }

/-- Opens a block collection at a column, its token put after the first `index` ones, if none is open there. -/
def openBlock (column index : Nat) (t : Token) (c : Cutter) : Cutter :=
  if !c.inFlow && c.indent < column then
    { c with indent := column, outer := c.indent :: c.outer }.insert index t
  else c

/-- Closes block collections to the right of a column, `outer` being the columns around the innermost one. -/
def closeFrom (column indent : Int) (outer : List Int) (tokens : List Token) : Int × List Int × List Token :=
  match outer with
  | [] => (indent, [], tokens)
  | next :: more =>
    if column < indent then closeFrom column next more (.blockEnd :: tokens) else (indent, outer, tokens)

/-- Closes the block collections to the right of a column. -/
def closeBlocks (column : Int) (c : Cutter) : Cutter :=
  if c.inFlow then c
  else
    let (indent, outer, tokens) := closeFrom column c.indent c.outer c.tokens
    { c with indent, outer, tokens }

/-- Goes past blanks, comments and line breaks. A tab is no blank where a key may begin in block context; after a line
break one may. -/
def skipSpacingFrom (fuel : Nat) (c : Cutter) : Cutter :=
  match fuel with
  | 0 => c
  | fuel + 1 =>
    let p := c.place.pass fun d => d == ' ' || (d == '\t' && (c.inFlow || !c.keyAllowed))
    let p := if p.rest.head? = some '#' then p.pass (!isBreak ·) else p
    match p.newLine? with
    | some (_, q) => skipSpacingFrom fuel { c with place := q, keyAllowed := c.keyAllowed || !c.inFlow }
    | none => c.moved p

def skipSpacing (c : Cutter) : Cutter := skipSpacingFrom (c.place.rest.length + 1) c

/-! ## One token -/

/-- A token between documents: it closes what is open. -/
def documentMark? (t : Token) (after : Place) (c : Cutter) : Option Cutter := do
  let c ← (c.closeBlocks (-1)).dropKey?
  some ({ c with keyAllowed := false, place := after }.emit t)

/-- The start of a flow collection, which may be a key as a whole. -/
def openFlow? (t : Token) (c : Cutter) : Option Cutter := do
  let c ← c.saveKey?
  some ({ c with
    keyStart := none, outerKeys := c.keyStart :: c.outerKeys, keyAllowed := true, place := c.place.skip 1 }.emit t)

def closeFlow? (t : Token) (c : Cutter) : Option Cutter := do
  let c ← c.dropKey?
  let c := match c.outerKeys with
    | key :: more => { c with keyStart := key, outerKeys := more }
    | [] => c
  some ({ c with keyAllowed := false, place := c.place.skip 1 }.emit t)

def comma? (c : Cutter) : Option Cutter := do
  let c ← c.dropKey?
  some ({ c with keyAllowed := true, place := c.place.skip 1 }.emit .comma)

/-- The mark of an item. In block context it stands where a key may begin. -/
def item? (c : Cutter) : Option Cutter := do
  if !c.inFlow && !c.keyAllowed then none
  let c ← (c.openBlock c.place.column c.tokens.length .blockSequence).dropKey?
  some ({ c with keyAllowed := true, place := c.place.skip 1 }.emit .item)

/-- The mark of a key. -/
def key? (c : Cutter) : Option Cutter := do
  if !c.inFlow && !c.keyAllowed then none
  let c ← (c.openBlock c.place.column c.tokens.length .blockMapping).dropKey?
  some ({ c with keyAllowed := !c.inFlow, place := c.place.skip 1 }.emit .key)

/-- The mark of a value: what could be a key before it now is one. -/
def value? (c : Cutter) : Option Cutter := do
  let c ← match c.keyStart with
    | some k =>
      let c := (c.insert k.index .key).openBlock k.column k.index .blockMapping
      some { c with keyStart := none, keyAllowed := false }
    | none =>
      if !c.inFlow && !c.keyAllowed then none
      let c := c.openBlock c.place.column c.tokens.length .blockMapping
      some { c with keyAllowed := !c.inFlow }
  some ((c.moved (c.place.skip 1)).emit .value)

/-- The name after `&` or `*`, and the place after it. -/
def name? (p : Place) : Option (String × Place) :=
  let (word, q) := (p.skip 1).run isWordChar
  let isClosed := endsWord q.rest || q.rest.head?.any ("?:,]\x7d%@\x60".toList.contains ·)
  if word.isEmpty || !isClosed then none else some (String.ofList word, q)

/-- An anchor or an alias, which may begin a key. -/
def named? (token : String → Token) (c : Cutter) : Option Cutter := do
  let c ← c.saveKey?
  let (name, p) ← name? c.place
  some ({ c with keyAllowed := false, place := p }.emit (token name))

/-- A tag, which may begin a key. -/
def tag? (c : Cutter) : Option Cutter := do
  let c ← c.saveKey?
  let (t, p) ← Tag.read? c.inFlow c.place
  some ({ c with keyAllowed := false, place := p }.emit (.tag t))

/-- A block scalar, after which a key may begin. -/
def block? (c : Cutter) : Option Cutter := do
  let c ← c.dropKey?
  let (style, text, p) ← Yaml.block? c.indent c.place
  some ({ c with keyAllowed := true, place := p }.emit (.scalar style text))

/-- A quoted scalar, which may be a key. -/
def quoted? (c : Cutter) : Option Cutter := do
  let c ← c.saveKey?
  let (text, p) ← Yaml.quoted? c.place
  some ({ c with keyAllowed := false, place := p }.emit (.scalar .quoted text))

/-- A plain scalar, which may be a key. After one that ends with a line break a key may begin. -/
def plain? (c : Cutter) : Option Cutter := do
  let c ← c.saveKey?
  let (text, broken, p) ← Yaml.plain? c.inFlow (c.indent + 1).toNat c.place
  some ({ c with keyAllowed := broken, place := p }.emit (.scalar .plain text))

/-- The token that comes next, where there is one. -/
def next? (c : Cutter) : Option Cutter :=
  let p := c.place
  let flow := c.inFlow
  match p.rest with
  | [] => none
  | d :: rest =>
    if p.column = 0 ∧ d = '%' then do
      let (directive, q) ← Directive.read? p
      c.documentMark? (.directive directive) q
    else if p.atDocumentMark then c.documentMark? (if d = '-' then .documentStart else .documentEnd) (p.skip 3)
    else if d = '[' then c.openFlow? .flowSequence
    else if d = '\x7b' then c.openFlow? .flowMapping
    else if d = ']' then c.closeFlow? .flowSequenceEnd
    else if d = '\x7d' then c.closeFlow? .flowMappingEnd
    else if d = ',' then c.comma?
    else if d = '-' && endsWord rest then c.item?
    else if d = '?' && (flow || endsWord rest) then c.key?
    else if d = ':' && (flow || endsWord rest) then c.value?
    else if d = '*' then c.named? .alias
    else if d = '&' then c.named? .anchor
    else if d = '!' then c.tag?
    else if (d = '|' || d = '>') && !flow then c.block?
    else if d = '\x27' || d = '\x22' then c.quoted?
    else if beginsPlain flow p.rest then c.plain?
    else none

/-- Cuts the rest of a text. At its end every block collection closes, and no key may be left open. -/
def finish? (fuel : Nat) (c : Cutter) : Option (List Token) :=
  match fuel with
  | 0 => none
  | fuel + 1 => do
    let c ← c.skipSpacing.dropStale?
    let c := c.closeBlocks c.place.column
    if c.place.rest.isEmpty then
      let c ← (c.closeBlocks (-1)).dropKey?
      some c.tokens.reverse
    else finish? fuel (← c.next?)

end Cutter

/-- The tokens of a text, if it can be cut into tokens. -/
def Token.ofText? (text : String) : Option (List Token) := do
  let p ← Place.start? text
  Cutter.finish? (p.rest.length + 1) { place := p }

end Reaper.Yaml
