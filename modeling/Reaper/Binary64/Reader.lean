import Reaper.Binary64
import Reaper.Text.Digits

/-!
Reading floating-point numbers: an optional sign, then `inf`, `infinity` or `nan` in any case, or decimal digits with
an optional point and an optional exponent. At least one digit stands before or after the point, and an exponent has
at least one digit. The number read is the one closest to the decimal value.
-/

namespace Reaper.Binary64

/-- The number closest to `digits * 10 ^ exponent`, with a sign. Magnitudes far outside the range are settled from the
number of digits alone. -/
def ofDecimal (negative : Bool) (digits : Nat) (exponent : Int) : Binary64 :=
  if digits = 0 then zero negative
  else
    let scale : Int := (Text.digitsOf digits).length + exponent
    if 400 < scale then infinite negative
    else if scale < -400 then zero negative
    else
      let q : Rat := if 0 ≤ exponent then ((digits * Nat.pow 10 exponent.toNat : Nat) : Rat)
        else mkRat digits (Nat.pow 10 (-exponent).toNat)
      ofRat (if negative then -q else q) negative

def lowerAscii (cs : List Char) : List Char := cs.map Char.toLower

/-- An exponent part: nothing, or the letter e with signed digits. -/
def readExponent? : List Char → Option Int
  | [] => some 0
  | c :: rest =>
    if c = 'e' ∨ c = 'E' then
      match rest with
      | '-' :: ds => (Text.natOfDigits? ds).map fun n => -(n : Int)
      | '+' :: ds => (Text.natOfDigits? ds).map fun n => (n : Int)
      | ds => (Text.natOfDigits? ds).map fun n => (n : Int)
    else none

def readMagnitude? (negative : Bool) (cs : List Char) : Option Binary64 :=
  let word := lowerAscii cs
  if word = "inf".toList ∨ word = "infinity".toList then some (infinite negative)
  else if word = "nan".toList then some nan
  else
    let whole := cs.takeWhile Text.isDigit
    let rest := cs.dropWhile Text.isDigit
    let (fraction, rest) : List Char × List Char := match rest with
      | '.' :: r => (r.takeWhile Text.isDigit, r.dropWhile Text.isDigit)
      | r => ([], r)
    if whole.isEmpty && fraction.isEmpty then none
    else
      (readExponent? rest).map fun e =>
        ofDecimal negative (Text.digitsOnto 0 (whole ++ fraction)) (e - fraction.length)

def read? : List Char → Option Binary64
  | '-' :: rest => readMagnitude? true rest
  | '+' :: rest => readMagnitude? false rest
  | cs => readMagnitude? false cs

end Reaper.Binary64
