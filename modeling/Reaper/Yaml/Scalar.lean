import Reaper.Yaml.Node
import Reaper.Yaml.Place
import Reaper.Json.Reader

/-!
Scalars of a YAML text: plain ones, quoted ones and blocks.

White space inside a scalar folds: blanks of one line stay, one line break becomes a space, more become one fewer, and a
separator of lines or paragraphs stays what it is. Blocks keep their lines, or fold those that do not start with a
blank.
-/

namespace Reaper.Yaml

/-! ## White space between words -/

/-- The white space between two words: the blanks if it lies on one line, else the line breaks. -/
structure Gap where
  blanks : List Char := []
  breaks : List Char := []

namespace Gap

/-- Line breaks folded: a first line feed gives way to the breaks after it, or to a space. -/
def folded (breaks : List Char) : List Char :=
  match breaks with
  | '\n' :: [] => [' ']
  | '\n' :: more => more
  | _ => breaks

/-- What a gap stands for. -/
def text (g : Gap) : List Char := if g.breaks.isEmpty then g.blanks else folded g.breaks

/-- Some line break lies in the gap. -/
def isBroken (g : Gap) : Bool := !g.breaks.isEmpty

/-- Reads a gap on; both parts are in reverse. On a line of its own a tab may not stand left of column `least`, and
blanks count for nothing. -/
def readFrom (least : Nat) (onNewLine : Bool) (blanks breaks : List Char) (column line offset : Nat) :
    List Char → Option (Gap × Place)
  | [] => some (⟨blanks.reverse, breaks.reverse⟩, ⟨[], column, line, offset⟩)
  | c :: rest =>
    if isBreak c then readFrom least true [] (c :: breaks) 0 (line + 1) (offset + c.utf8Size) rest
    else if isBlank c then
      if onNewLine && c = '\t' && column < least then none
      else
        let blanks := if onNewLine then blanks else c :: blanks
        readFrom least onNewLine blanks breaks (column + 1) line (offset + 1) rest
    else some (⟨blanks.reverse, breaks.reverse⟩, ⟨c :: rest, column, line, offset⟩)

/-- The gap that comes next, maybe empty. -/
def read? (least : Nat) (p : Place) : Option (Gap × Place) :=
  readFrom least false [] [] p.column p.line p.offset p.rest

/-- A gap inside quotes, where tabs may stand anywhere. -/
def readQuoted? (onNewLine : Bool) (p : Place) : Option (Gap × Place) :=
  readFrom 0 onNewLine [] [] p.column p.line p.offset p.rest

end Gap

/-! ## Plain scalars -/

/-- A word of a plain scalar, in reverse, and what comes after it. A colon ends it before white space; in flow context
the marks of collections do too, and a colon right before such a mark or a question mark is an error. -/
def plainWordFrom (flow : Bool) (acc : List Char) : List Char → Option (List Char)
  | [] => some acc
  | c :: rest =>
    if isSpacing c then some acc
    else if flow && c = ':' && rest.head?.any (fun d => isFlowMark d || d == '?') then none
    else if c = ':' && endsWord rest then some acc
    else if flow && isFlowMark c then some acc
    else plainWordFrom flow (c :: acc) rest

/-- The word of a plain scalar that comes next. -/
def plainWord? (flow : Bool) (p : Place) : Option (List Char × Place) :=
  (plainWordFrom flow [] p.rest).map fun acc => (acc.reverse, p.past acc.reverse)

/-- Reads a plain scalar on, `acc` in reverse and `gap` before the next word. Outside flow context a continuation line
stands at column `least` or further right. Tells whether the scalar ends after a line break. -/
def plainFrom (flow : Bool) (least : Nat) (fuel : Nat) (acc : List Char) (gap : Gap) (p : Place) :
    Option (List Char × Bool × Place) :=
  match fuel with
  | 0 => none
  | fuel + 1 =>
    if p.atDocumentMark || p.rest.head? = some '#' then some (acc.reverse, gap.isBroken, p)
    else do
      let (word, q) ← plainWord? flow p
      if word.isEmpty then return (acc.reverse, gap.isBroken, p)
      let acc := word.reverse ++ gap.text.reverse ++ acc
      if q.rest.head?.any isSpacing then
        let (gap, r) ← Gap.read? least q
        if !flow && r.column < least then return (acc.reverse, gap.isBroken, r)
        plainFrom flow least fuel acc gap r
      else return (acc.reverse, false, q)

/-- A plain scalar, whether it ends after a line break, and the place after the white space that follows it. -/
def plain? (flow : Bool) (least : Nat) (p : Place) : Option (String × Bool × Place) :=
  (plainFrom flow least (p.rest.length + 1) [] {} p).map fun (cs, broken, q) => (String.ofList cs, broken, q)

/-- A character that may begin a plain scalar. -/
def beginsPlain (flow : Bool) (cs : List Char) : Bool :=
  match cs with
  | [] => false
  | c :: rest =>
    if c = '-' then !rest.head?.any isBlank
    else if c = '?' ∨ c = ':' then !flow && !endsWord rest
    else !(isSpacing c || isFlowMark c || "#&*!|>'\"%@`".toList.contains c)

/-! ## Quoted scalars -/

/-- The value of so many hexadecimal digits, if it is a character. -/
def hexDigits? (count : Nat) (cs : List Char) : Option Char := do
  let ds := cs.take count
  if ds.length ≠ count then none
  let n ← ds.foldlM (fun acc c => (Json.hexValue? c).map (acc * 16 + ·)) 0
  if n.isValidChar then some (Char.ofNat n) else none

/-- The character that an escape stands for, with the length of the escape. -/
def escape? (cs : List Char) : Option (Char × Nat) :=
  match cs with
  | '0' :: _ => some ('\x00', 1)
  | 'a' :: _ => some ('\x07', 1)
  | 'b' :: _ => some ('\x08', 1)
  | 't' :: _ => some ('\t', 1)
  | '\t' :: _ => some ('\t', 1)
  | 'n' :: _ => some ('\n', 1)
  | 'v' :: _ => some ('\x0b', 1)
  | 'f' :: _ => some ('\x0c', 1)
  | 'r' :: _ => some ('\r', 1)
  | 'e' :: _ => some ('\x1b', 1)
  | ' ' :: _ => some (' ', 1)
  | '\x22' :: _ => some ('\x22', 1)
  | '/' :: _ => some ('/', 1)
  | '\\' :: _ => some ('\\', 1)
  | 'N' :: _ => some (Char.ofNat 0x85, 1)
  | '_' :: _ => some (Char.ofNat 0xA0, 1)
  | 'L' :: _ => some (Char.ofNat 0x2028, 1)
  | 'P' :: _ => some (Char.ofNat 0x2029, 1)
  | 'x' :: rest => (hexDigits? 2 rest).map (·, 3)
  | 'u' :: rest => (hexDigits? 4 rest).map (·, 5)
  | 'U' :: rest => (hexDigits? 8 rest).map (·, 9)
  | _ => none

/-- Reads a quoted text on, `acc` in reverse. In single quotes a quote is written twice; in double quotes a backslash
begins an escape, and before a line break it joins the lines. No line inside may be a document mark. -/
def quotedFrom (double : Bool) (fuel : Nat) (acc : List Char) (p : Place) : Option (List Char × Place) :=
  match fuel with
  | 0 => none
  | fuel + 1 =>
    match p.rest with
    | [] => none
    | c :: rest =>
      if isSpacing c then do
        let (gap, q) ← Gap.readQuoted? false p
        if q.atDocumentMark then none
        quotedFrom double fuel (gap.text.reverse ++ acc) q
      else if !double && c = '\x27' then
        match rest with
        | '\x27' :: _ => quotedFrom double fuel ('\x27' :: acc) (p.skip 2)
        | _ => some (acc.reverse, p.skip 1)
      else if double && c = '\x22' then some (acc.reverse, p.skip 1)
      else if double && c = '\\' then
        match (p.skip 1).newLine? with
        | some (_, q) => do
          let (gap, r) ← Gap.readQuoted? true q
          if r.atDocumentMark then none
          quotedFrom double fuel (gap.breaks.reverse ++ acc) r
        | none => do
          let (d, len) ← escape? rest
          quotedFrom double fuel (d :: acc) (p.skip (1 + len))
      else quotedFrom double fuel (c :: acc) (p.skip 1)

def quoted? (p : Place) : Option (String × Place) :=
  (quotedFrom (p.rest.head? == some '\x22') (p.rest.length + 1) [] (p.skip 1)).map fun (cs, q) => (String.ofList cs, q)

/-! ## Blocks -/

/-- What happens to the line breaks at the end of a block. -/
inductive Chomp where
  | strip
  | clip
  | keep
  deriving DecidableEq, Repr

/-- The chomping that a mark asks for. -/
def Chomp.ofMark? (p : Place) : Option Chomp :=
  match p.rest with
  | '-' :: _ => some .strip
  | '+' :: _ => some .keep
  | _ => none

/-- An indentation mark, which is a digit; the outer option fails on zero. -/
def indentMark? (p : Place) : Option (Option Nat) :=
  match p.rest with
  | c :: _ => if !Text.isDigit c then some none else if c = '0' then none else some (some (c.toNat - 48))
  | [] => some none

/-- The marks after `|` or `>`: a chomping mark and an indentation mark in either order. -/
def blockMarks? (p : Place) : Option (Chomp × Option Nat × Place) := do
  match Chomp.ofMark? p with
  | some chomp =>
    let p := p.skip 1
    match ← indentMark? p with
    | some d => some (chomp, some d, p.skip 1)
    | none => some (chomp, none, p)
  | none =>
    match ← indentMark? p with
    | some d =>
      let p := p.skip 1
      match Chomp.ofMark? p with
      | some chomp => some (chomp, some d, p.skip 1)
      | none => some (.clip, some d, p)
    | none => some (.clip, none, p)

/-- Passes the lines without content, `found` being their breaks in reverse, and the indentation of the next line, up to
`indent` or, while that is unknown, up to the content. A tab may not stand in the indentation. Gives the breaks, and the
width of the widest line of spaces. -/
def blankLinesFrom (indent : Option Nat) (found : List Char) (widest column line offset : Nat) :
    List Char → Option (List Char × Nat × Place)
  | [] => some (found.reverse, max widest column, ⟨[], column, line, offset⟩)
  | c :: rest =>
    let inside := indent.all (column < ·)
    if inside && c = ' ' then blankLinesFrom indent found widest (column + 1) line (offset + 1) rest
    else if inside && c = '\t' then none
    else if isBreak c then
      blankLinesFrom indent (c :: found) (max widest column) 0 (line + 1) (offset + c.utf8Size) rest
    else some (found.reverse, max widest column, ⟨c :: rest, column, line, offset⟩)

/-- Passes the lines without content that come next. -/
def blankLines? (indent : Option Nat) (p : Place) : Option (List Char × Nat × Place) :=
  blankLinesFrom indent [] 0 p.column p.line p.offset p.rest

/-- The text of a block as far as it is read, in reverse, with the breaks after its last line: the one that ends the
line and those of lines without content. -/
structure BlockText where
  text : List Char := []
  lineBreak : List Char := []
  moreBreaks : List Char := []
  beganBlank : Bool := false

namespace BlockText

/-- One line more. When lines fold, a line feed between two lines that do not begin with a blank gives way to the breaks
after it, or to a space. -/
def add (folds : Bool) (line : List Char) (b : BlockText) : BlockText :=
  let isBlankLed := line.head?.any isBlank
  let joint :=
    if folds && b.lineBreak == ['\n'] && !b.beganBlank && !isBlankLed then
      if b.moreBreaks.isEmpty then [' '] else b.moreBreaks
    else b.lineBreak ++ b.moreBreaks
  { b with text := line.reverse ++ joint.reverse ++ b.text, beganBlank := isBlankLed }

def chomped (chomp : Chomp) (b : BlockText) : List Char :=
  b.text.reverse ++
    match chomp with
    | .strip => []
    | .clip => b.lineBreak
    | .keep => b.lineBreak ++ b.moreBreaks

end BlockText

/-- Reads the lines of a block that stand at column `indent`. -/
def blockLines (folds : Bool) (indent fuel : Nat) (b : BlockText) (p : Place) : Option (BlockText × Place) :=
  match fuel with
  | 0 => none
  | fuel + 1 =>
    if p.column == indent && !p.rest.isEmpty then do
      let (line, q) := p.run (!isBreak ·)
      let (lineBreak, q) := match q.newLine? with
        | some (c, r) => ([c], r)
        | none => ([], q)
      let (moreBreaks, _, r) ← blankLines? (some indent) q
      blockLines folds indent fuel { b.add folds line with lineBreak, moreBreaks } r
    else some (b, p)

/-- A block scalar inside a collection at column `parent`. Its indentation is counted from there when it is marked; else
it is that of the widest of the blank lines and the first line with content, and lies right of the collection. -/
def block? (parent : Int) (p : Place) : Option (Style × String × Place) := do
  let style := if p.rest.head? = some '|' then Style.literal else Style.folded
  let (chomp, mark, p) ← blockMarks? (p.skip 1)
  let p ← p.endOfLine?
  let marked := mark.map fun d => parent.toNat + d
  let (breaks, widest, q) ← blankLines? marked p
  let indent := marked.getD (max widest (max (parent + 1).toNat 1))
  let (b, r) ← blockLines (style == .folded) indent (p.rest.length + 1) { moreBreaks := breaks } q
  some (style, String.ofList (b.chomped chomp), r)

end Reaper.Yaml
