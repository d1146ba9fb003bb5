import Reaper.Json
import Reaper.Binary64.Reader

/-!
Reading JSON text.

Each reader takes the characters still to come and gives a value with the characters after it, or tells whether the
text breaks off or is malformed. `draft` reads a text as it is written: objects keep repeated fields in their order,
and what has no value is `unreadable` there: a number out of range, text with half a character, an object with such
text for a key, and nesting deeper than 127. `read?` gives the settled value. A number written without a fraction and
an exponent is whole when it fits in sixty-four bits, signed or unsigned; every other number is the closest
floating-point number.
-/

namespace Reaper.Json

/-- The characters after the white space of the format. -/
def skipSpace : List Char → List Char
  | c :: rest => if c = ' ' ∨ c = '\n' ∨ c = '\r' ∨ c = '\t' then skipSpace rest else c :: rest
  | [] => []

def hexValue? (c : Char) : Option Nat :=
  if Text.isDigit c then some (c.toNat - 48)
  else if 'a' ≤ c ∧ c ≤ 'f' then some (c.toNat - 87)
  else if 'A' ≤ c ∧ c ≤ 'F' then some (c.toNat - 55)
  else none

def fourHex? : List Char → Option (Nat × List Char)
  | a :: b :: c :: d :: rest => do
    let a ← hexValue? a
    let b ← hexValue? b
    let c ← hexValue? c
    let d ← hexValue? d
    some (((a * 16 + b) * 16 + c) * 16 + d, rest)
  | _ => none

/-- Why a text is not the text of a value. -/
inductive Breach where
  /-- it ends before the value does -/
  | truncated
  | malformed
  deriving DecidableEq, Repr

/-- An escape with four hexadecimal digits, or two of them that make one character. None if it is half of a character,
with the characters after that half. -/
def unicodeEscape (cs : List Char) : Except Breach (Option Char × List Char) :=
  match fourHex? cs with
  | none => .error (if cs.length < 4 then .truncated else .malformed)
  | some (high, rest) =>
    if 0xD800 ≤ high ∧ high < 0xDC00 then
      match rest with
      | '\\' :: 'u' :: more =>
        match fourHex? more with
        | some (low, rest') =>
          if 0xDC00 ≤ low ∧ low < 0xE000 then
            .ok (some (Char.ofNat (0x10000 + (high - 0xD800) * 0x400 + (low - 0xDC00))), rest')
          else .ok (none, rest)
        | none => .ok (none, rest)
      | _ => .ok (none, rest)
    else if 0xDC00 ≤ high ∧ high < 0xE000 then .ok (none, rest)
    else .ok (some (Char.ofNat high), rest)

/-- The character that a backslash and a letter stand for. -/
def shortEscape? : Char → Option Char
  | '\x22' => some '\x22'
  | '\\' => some '\\'
  | '/' => some '/'
  | 'b' => some '\x08'
  | 'f' => some '\x0c'
  | 'n' => some '\n'
  | 'r' => some '\r'
  | 't' => some '\t'
  | _ => none

/-- The characters of a string after its opening quote, in reverse onto `acc`; none once there was half of a
character. -/
def stringFrom : Nat → Option (List Char) → List Char → Except Breach (Option String × List Char)
  | 0, _, _ => .error .truncated
  | fuel + 1, acc, cs =>
    match cs with
    | [] | ['\\'] => .error .truncated
    | '\x22' :: rest => .ok (acc.map fun cs => String.ofList cs.reverse, rest)
    | '\\' :: 'u' :: rest => do
      let (c, rest) ← unicodeEscape rest
      stringFrom fuel (do some ((← c) :: (← acc))) rest
    | '\\' :: c :: rest =>
      match shortEscape? c with
      | some d => stringFrom fuel (acc.map (d :: ·)) rest
      | none => .error .malformed
    | c :: rest => if c.toNat < 0x20 then .error .malformed else stringFrom fuel (acc.map (c :: ·)) rest

/-- A string after its opening quote; none if it has half of a character. -/
def readString (cs : List Char) : Except Breach (Option String × List Char) := stringFrom (cs.length + 1) (some []) cs

/-- The least and greatest whole numbers that are kept as such. -/
def wholeRange : Int × Int := (-9223372036854775808, 18446744073709551615)

/-- A floating-point number, if it is finite. -/
def ofBinary64 (x : Binary64) : Json := if x.isFinite then float x else unreadable

/-- The number that a whole literal denotes. -/
def wholeNumber (negative : Bool) (digits : List Char) : Json :=
  let n := Text.digitsOnto 0 digits
  let i : Int := if negative then -(n : Int) else n
  if negative && n == 0 then float .negativeZero
  else if wholeRange.1 ≤ i ∧ i ≤ wholeRange.2 then int i
  else ofBinary64 (Binary64.ofDecimal negative n 0)

def someDigits (cs : List Char) : Except Breach (List Char × List Char) :=
  let ds := cs.takeWhile Text.isDigit
  let rest := cs.dropWhile Text.isDigit
  if !ds.isEmpty then .ok (ds, rest) else .error (if rest.isEmpty then .truncated else .malformed)

/-- The digits after a point, if a point comes next. -/
def readFraction : List Char → Except Breach (Option (List Char) × List Char)
  | '.' :: rest => (someDigits rest).map fun (ds, r) => (some ds, r)
  | cs => .ok (none, cs)

def readExponent (cs : List Char) : Except Breach (Option Int × List Char) :=
  match cs with
  | c :: rest =>
    if c = 'e' ∨ c = 'E' then
      let (negative, rest) := match rest with
        | '-' :: r => (true, r)
        | '+' :: r => (false, r)
        | r => (false, r)
      (someDigits rest).map fun (ds, r) =>
        let n : Int := Text.digitsOnto 0 ds
        (some (if negative then -n else n), r)
    else .ok (none, cs)
  | [] => .ok (none, [])

def readMagnitude (negative : Bool) (cs : List Char) : Except Breach (Json × List Char) := do
  let (whole, rest) ← someDigits cs
  if whole.length > 1 ∧ whole.head? = some '0' then .error .malformed
  let (fraction, rest) ← readFraction rest
  let (exponent, rest) ← readExponent rest
  match fraction, exponent with
  | none, none => .ok (wholeNumber negative whole, rest)
  | _, _ =>
    let fraction := fraction.getD []
    let x := Binary64.ofDecimal negative (Text.digitsOnto 0 (whole ++ fraction)) (exponent.getD 0 - fraction.length)
    .ok (ofBinary64 x, rest)

def readWord (word : List Char) (j : Json) (cs : List Char) : Except Breach (Json × List Char) :=
  match word, cs with
  | [], _ => .ok (j, cs)
  | _ :: _, [] => .error .truncated
  | c :: word, d :: rest => if c = d then readWord word j rest else .error .malformed

/-- What is to come when it is not what was expected. -/
def unexpected (cs : List Char) : Breach := if cs.isEmpty then .truncated else .malformed

/-- How deep arrays and objects may be nested. -/
def depthLimit : Nat := 127

mutual

/-- One value inside of `depth` arrays and objects. -/
def readValue : (fuel : Nat) → (depth : Nat) → List Char → Except Breach (Json × List Char)
  | 0, _, _ => .error .truncated
  | fuel + 1, depth, cs =>
    let nested (j : Json) : Json := if depth < depthLimit then j else unreadable
    match skipSpace cs with
    | [] => .error .truncated
    | '\x22' :: rest => (readString rest).map fun (s, r) => ((s.map string).getD unreadable, r)
    | '[' :: rest =>
      match skipSpace rest with
      | ']' :: r => .ok (nested (array []), r)
      | r => (readItems fuel (depth + 1) [] r).map fun (js, r) => (nested (array js), r)
    | '\x7b' :: rest =>
      match skipSpace rest with
      | '\x7d' :: r => .ok (nested (object []), r)
      | r => (readFields fuel (depth + 1) (some []) r).map fun (j, r) => (nested j, r)
    | 't' :: rest => readWord "rue".toList (bool true) rest
    | 'f' :: rest => readWord "alse".toList (bool false) rest
    | 'n' :: rest => readWord "ull".toList null rest
    | '-' :: rest => readMagnitude true rest
    | c :: rest => if Text.isDigit c then readMagnitude false (c :: rest) else .error .malformed

/-- The elements of an array up to its closing bracket. -/
def readItems : (fuel : Nat) → (depth : Nat) → List Json → List Char → Except Breach (List Json × List Char)
  | 0, _, _, _ => .error .truncated
  | fuel + 1, depth, acc, cs => do
    let (j, rest) ← readValue fuel depth cs
    match skipSpace rest with
    | ',' :: r => readItems fuel depth (j :: acc) r
    | ']' :: r => .ok ((j :: acc).reverse, r)
    | r => .error (unexpected r)

/-- The fields of an object up to its closing brace; none once a key was no text. -/
def readFields :
    (fuel : Nat) → (depth : Nat) → Option (List (String × Json)) → List Char → Except Breach (Json × List Char)
  | 0, _, _, _ => .error .truncated
  | fuel + 1, depth, acc, cs =>
    match skipSpace cs with
    | '\x22' :: rest => do
      let (key, rest) ← readString rest
      match skipSpace rest with
      | ':' :: r =>
        let (j, rest) ← readValue fuel depth r
        let acc := do some ((← key, j) :: (← acc))
        match skipSpace rest with
        | ',' :: r => readFields fuel depth acc r
        | '\x7d' :: r => .ok ((acc.map fun fields => object fields.reverse).getD unreadable, r)
        | r => .error (unexpected r)
      | r => .error (unexpected r)
    | r => .error (unexpected r)

end

/-- The value of a whole text as it is written, not settled. -/
def draft (text : String) : Except Breach Json := do
  let cs := text.toList
  let (j, rest) ← readValue (2 * cs.length + 2) 0 cs
  if (skipSpace rest).isEmpty then .ok j else .error .malformed

/-- The value of a whole text as it is written, if it is the text of a value. -/
def draft? (text : String) : Option Json := (draft text).toOption

/-- The settled value of a whole text. -/
def read? (text : String) : Option Json := (draft? text).bind settled?

end Reaper.Json
