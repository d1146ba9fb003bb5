import Reaper.Text.Digits

/-!
Places in a YAML text.

A `Place` is what is still to be read, with the line and the column it starts in and the number of bytes before it. Line
breaks are the line feed and the two separators of lines and paragraphs; `Place.start?` brings the other breaks to a
line feed and refuses characters that may not stand in a text.
-/

namespace Reaper.Yaml

/-- A space or a tab. -/
def isBlank (c : Char) : Bool := c == ' ' || c == '\t'

/-- The separators of lines and paragraphs. -/
def isSeparator (c : Char) : Bool := c.toNat == 0x2028 || c.toNat == 0x2029

def isBreak (c : Char) : Bool := c == '\n' || isSeparator c

/-- A blank or a line break. -/
def isSpacing (c : Char) : Bool := isBlank c || isBreak c

/-- Nothing, a blank or a line break comes next. -/
def endsWord (cs : List Char) : Bool := cs.head?.all isSpacing

def isFlowMark (c : Char) : Bool := c == ',' || c == '[' || c == ']' || c == '\x7b' || c == '\x7d'

/-- The mark of an order of bytes, which may precede a text. -/
def isByteOrderMark (c : Char) : Bool := c.toNat == 0xFEFF

def isWordChar (c : Char) : Bool := c.isAlphanum || c == '-' || c == '_'

/-- The characters still to be read, and where the first of them stands. -/
structure Place where
  rest : List Char
  column : Nat
  line : Nat
  offset : Nat

namespace Place

/-- The number of bytes of a word. -/
def bytes (word : List Char) : Nat := word.foldr (fun c n => c.utf8Size + n) 0

/-- The place after a word of one line that comes next. -/
def past (p : Place) (word : List Char) : Place :=
  { p with
    rest := p.rest.drop word.length
    column := p.column + word.length
    offset := p.offset + bytes word }

/-- The place after so many characters of one line. -/
def skip (p : Place) (n : Nat) : Place := p.past (p.rest.take n)

/-- The longest run of characters of a kind, all on one line, and the place after it. -/
def run (kind : Char → Bool) (p : Place) : List Char × Place :=
  let word := p.rest.takeWhile kind
  (word, p.past word)

/-- The place after the longest run of characters of a kind. -/
def pass (kind : Char → Bool) (p : Place) : Place := (p.run kind).2

/-- The place after a line break, if one comes next. -/
def newLine? (p : Place) : Option (Char × Place) :=
  match p.rest with
  | c :: rest =>
    if isBreak c then some (c, { rest, column := 0, line := p.line + 1, offset := p.offset + c.utf8Size }) else none
  | [] => none

/-- A line that begins or ends a document. -/
def atDocumentMark (p : Place) : Bool :=
  p.column == 0 &&
    match p.rest with
    | '-' :: '-' :: '-' :: r => endsWord r
    | '.' :: '.' :: '.' :: r => endsWord r
    | _ => false

/-- The rest of a line may hold blanks and a comment. Gives the place after its break. -/
def endOfLine? (p : Place) : Option Place :=
  let p := p.pass isBlank
  let p := if p.rest.head? = some '#' then p.pass (!isBreak ·) else p
  match p.newLine? with
  | some (_, q) => some q
  | none => if p.rest.isEmpty then some p else none

/-- A carriage return, alone or before a line feed, and the next-line character become a line feed. -/
def normalized : List Char → List Char
  | [] => []
  | '\r' :: '\n' :: rest => '\n' :: normalized rest
  | c :: rest => (if c = '\r' ∨ c.toNat = 0x85 then '\n' else c) :: normalized rest

/-- The characters that may stand in a text. -/
def isAllowed (c : Char) : Bool :=
  let n := c.toNat
  n == 9 || n == 10 || n == 13 || (0x20 ≤ n && n ≤ 0x7E) || n == 0x85 || (0xA0 ≤ n && n ≤ 0xD7FF) ||
    (0xE000 ≤ n && n ≤ 0xFFFD) || 0x10000 ≤ n

/-- The start of a text. A mark of the byte order counts as a column. -/
def start? (text : String) : Option Place :=
  let cs := text.toList
  if !cs.all isAllowed then none
  else
    let p : Place := ⟨normalized cs, 0, 0, 0⟩
    some (if p.rest.head?.any isByteOrderMark then p.skip 1 else p)

end Place

end Reaper.Yaml
