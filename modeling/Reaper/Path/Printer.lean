import Reaper.Path

/-!
Writing paths: each key after a dot, with a backslash before a dot, a backslash and an opening bracket; each index in
brackets or after a dot.
-/

namespace Reaper.Path

/-- The characters that take a backslash in a key. -/
def isSpecial (c : Char) : Bool := c == '.' || c == '\\' || c == '['

/-- A key with its special characters escaped. -/
def escapedKey (cs : List Char) : List Char :=
  cs.flatMap fun c => if isSpecial c then ['\\', c] else [c]

/-- How an index is written. -/
inductive IndexStyle where
  | bracketed
  | dotted
  deriving DecidableEq, Repr

def stepChars : Step × IndexStyle → List Char
  | (.key name, _) => '.' :: escapedKey name.toList
  | (.index i, .bracketed) => '[' :: (Text.digitsOf i ++ [']'])
  | (.index i, .dotted) => '.' :: Text.digitsOf i

/-- A list of steps in writing, each index in a style of its own. -/
def written (steps : List (Step × IndexStyle)) : String := String.ofList (steps.flatMap stepChars)

def quotedKey (name : String) : List Char := "['".toList ++ name.toList ++ "']".toList

end Reaper.Path
