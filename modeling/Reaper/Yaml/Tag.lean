import Reaper.Yaml.Place
import Reaper.Json.Reader

/-!
Tags of YAML nodes, and the directives that give tags their meaning.

A tag is written in full between angle brackets, or as a handle and a suffix; a directive says what a handle stands for.
`Handles.expand?` gives the full tag. The handles `!` and `!!` have a meaning without a directive.
-/

namespace Reaper.Yaml

/-- A tag as written. The handle of a tag in full is empty. -/
structure Tag where
  handle : String
  suffix : String
  deriving DecidableEq, Repr

namespace Tag

/-- A character of a tag; flow marks may stand in a tag in full and in directives only. -/
def isChar (full : Bool) (c : Char) : Bool :=
  isWordChar c || ";/?:@&=+$.%!~*'()".toList.contains c || (full && (c == ',' || c == '[' || c == ']'))

/-- The value of an escaped byte: a percent sign and two hexadecimal digits. -/
def escapedByte? (cs : List Char) : Option Nat :=
  match cs with
  | '%' :: a :: b :: _ => do some (16 * (← Json.hexValue? a) + (← Json.hexValue? b))
  | _ => none

/-- The number of bytes of the character that a byte begins. -/
def width? (byte : Nat) : Option Nat :=
  if byte < 0x80 then some 1
  else if byte < 0xC0 then none
  else if byte < 0xE0 then some 2
  else if byte < 0xF0 then some 3
  else if byte < 0xF8 then some 4
  else none

/-- The character of some bytes; the replacement character stands for bytes that are none. -/
def charOfBytes (bytes : List Nat) : Char :=
  ((String.fromUTF8? ⟨(bytes.map fun n => n.toUInt8).toArray⟩).bind fun s => s.toList.head?).getD (Char.ofNat 0xFFFD)

def escapedChar? (cs : List Char) : Option (Char × Nat) := do
  let first ← escapedByte? cs
  let width ← width? first
  let more ← (List.range (width - 1)).mapM fun i =>
    (escapedByte? (cs.drop (3 * (i + 1)))).filter fun b => 0x80 ≤ b && b < 0xC0
  some (charOfBytes (first :: more), 3 * width)

/-- Reads the characters of a tag on, `acc` in reverse. -/
def charsFrom (full : Bool) (fuel : Nat) (acc : List Char) (p : Place) : Option (List Char × Place) :=
  match fuel with
  | 0 => none
  | fuel + 1 =>
    match p.rest with
    | c :: _ =>
      if !isChar full c then some (acc.reverse, p)
      else if c = '%' then do
        let (d, len) ← escapedChar? p.rest
        charsFrom full fuel (d :: acc) (p.skip len)
      else charsFrom full fuel (c :: acc) (p.skip 1)
    | [] => some (acc.reverse, p)

/-- The characters of a tag that come next, up to an escaped zero. -/
def chars? (full : Bool) (p : Place) : Option (List Char × Place) :=
  (charsFrom full (p.rest.length + 1) [] p).map fun (cs, q) => (cs.takeWhile (· ≠ '\x00'), q)

/-- A run of characters that may be a handle: an exclamation mark and a word, with the mark that closes it if there is
one. -/
def handleRun? (p : Place) : Option (List Char × Place) :=
  match p.rest with
  | '!' :: _ =>
    let (word, q) := (p.skip 1).run isWordChar
    if q.rest.head? = some '!' then some ('!' :: word ++ ['!'], q.skip 1) else some ('!' :: word, q)
  | _ => none

/-- After a tag comes white space, or in flow context a comma. -/
def isClosed (flow : Bool) (p : Place) : Bool := endsWord p.rest || (flow && p.rest.head? == some ',')

def read? (flow : Bool) (p : Place) : Option (Tag × Place) := do
  let (tag, q) ←
    if (p.rest.drop 1).head? = some '<' then do
      let start := p.skip 2
      let (cs, q) ← chars? true start
      if q.offset = start.offset || q.rest.head? != some '>' then none
      some (⟨"", String.ofList cs⟩, q.skip 1)
    else do
      let (head, q) ← handleRun? p
      let (cs, r) ← chars? false q
      if 1 < head.length && head.getLast? = some '!' then
        if r.offset = q.offset then none
        some (⟨String.ofList head, String.ofList cs⟩, r)
      else
        let suffix := head.drop 1 ++ cs
        if suffix.isEmpty then some (⟨"", "!"⟩, r) else some (⟨"!", String.ofList suffix⟩, r)
  if isClosed flow q then some (tag, q) else none

end Tag

/-- What the handles of tags stand for. -/
abbrev Handles := List (String × String)

namespace Handles

def initial : Handles := [("!", "!"), ("!!", "tag:yaml.org,2002:")]

/-- The full tag that a tag stands for. -/
def expand? (handles : Handles) (tag : Tag) : Option String :=
  if tag.handle.isEmpty then some tag.suffix
  else (handles.find? (·.1 == tag.handle)).map fun h => h.2 ++ tag.suffix

end Handles

/-- A line before a document that begins with a percent sign. -/
inductive Directive where
  | version (major minor : Nat)
  | handle (name expansion : String)
  deriving DecidableEq, Repr

namespace Directive

/-- A number of at most nine digits. -/
def number? (p : Place) : Option (Nat × Place) :=
  let (ds, q) := p.run Text.isDigit
  if ds.isEmpty || 9 < ds.length then none
  else some (ds.foldl (fun acc c => acc * 10 + (c.toNat - 48)) 0, q)

/-- The version that a document is written in. -/
def version? (p : Place) : Option (Directive × Place) := do
  let (major, p) ← number? (p.pass isBlank)
  if p.rest.head? != some '.' then none
  let (minor, p) ← number? (p.skip 1)
  some (.version major minor, p)

/-- A handle and what it stands for. -/
def handle? (p : Place) : Option (Directive × Place) := do
  let (name, p) ← Tag.handleRun? (p.pass isBlank)
  if name != ['!'] && name.getLast? != some '!' then none
  if !p.rest.head?.any isBlank then none
  let start := p.pass isBlank
  let (cs, q) ← Tag.chars? true start
  if q.offset = start.offset || !endsWord q.rest then none
  some (.handle (String.ofList name) (String.ofList cs), q)

/-- A directive that comes next, with the rest of its line. -/
def read? (p : Place) : Option (Directive × Place) := do
  let (name, q) := (p.skip 1).run isWordChar
  if !endsWord q.rest then none
  let (directive, r) ← match String.ofList name with
    | "YAML" => version? q
    | "TAG" => handle? q
    | _ => none
  some (directive, ← r.endOfLine?)

end Directive

end Reaper.Yaml
