import Reaper.Json
import Reaper.Binary64.Notation
import Reaper.Text.Quoted

/-!
Writing JSON text without spaces: the form in which documents are sent and in which error bodies are quoted.
-/

namespace Reaper.Json

/-- How one character stands in a string. -/
def escapedChar (c : Char) : List Char :=
  match c with
  | '\x22' => ['\\', '\x22']
  | '\\' => ['\\', '\\']
  | '\n' => ['\\', 'n']
  | '\r' => ['\\', 'r']
  | '\t' => ['\\', 't']
  | '\x08' => ['\\', 'b']
  | '\x0c' => ['\\', 'f']
  | _ => if c.toNat < 0x20 then ['\\', 'u'] ++ Text.paddedHex 4 c.toNat else [c]

def stringText (s : String) : List Char := '\x22' :: (s.toList.flatMap escapedChar ++ ['\x22'])

mutual

/-- The characters of a value; what has no value is written as null. -/
def chars : Json → List Char
  | null => "null".toList
  | bool true => "true".toList
  | bool false => "false".toList
  | int i => (Text.intText i).toList
  | float x => if x.isFinite then (Binary64.Layout.value.text x).toList else "null".toList
  | string s => stringText s
  | array items => '[' :: (itemsChars items ++ [']'])
  | object fields => '\x7b' :: (fieldsChars fields ++ ['\x7d'])
  | unreadable => "null".toList

/-- The elements of an array, separated by commas. -/
def itemsChars : List Json → List Char
  | [] => []
  | [j] => chars j
  | j :: rest => chars j ++ ',' :: itemsChars rest

/-- The fields of an object, separated by commas. -/
def fieldsChars : List (String × Json) → List Char
  | [] => []
  | [(k, j)] => stringText k ++ ':' :: chars j
  | (k, j) :: rest => stringText k ++ ':' :: (chars j ++ ',' :: fieldsChars rest)

end

/-- The text of a value. -/
def text (j : Json) : String := String.ofList j.chars

end Reaper.Json
