import Reaper.Binary64.Shortest

/-!
Layouts of floating-point numbers.

A `Layout` holds the decisions: which magnitudes are written positionally, whether a whole number keeps a fraction
digit, the names of what is not finite, and ties. There are two of them. `Layout.value` writes numbers inside
documents, with a signed exponent outside `1e-5 ≤ |x| < 1e16`; `Layout.message` writes numbers in messages, never
with an exponent.
-/

namespace Reaper.Binary64

/-- The decisions of a number format. -/
structure Layout where
  /-- the decimal point positions written positionally; outside of them an exponent is written -/
  positional : Int → Bool
  /-- whether `3` is written `3.0` -/
  wholeHasFraction : Bool
  tie : Tie
  infinity : String
  notANumber : String

/-- Numbers as values: `0.5`, `3.0`, `1e+16`, `1.5e-7`. -/
def Layout.value : Layout :=
  { positional := fun p => -5 < p && p ≤ 16
    wholeHasFraction := true
    tie := .toEven
    infinity := "inf"
    notANumber := "NaN" }

/-- Numbers in messages: `0.5`, `3`, `10000000000000000`, never with an exponent. -/
def Layout.message : Layout :=
  { positional := fun _ => true
    wholeHasFraction := false
    tie := .up
    infinity := "inf"
    notANumber := "NaN" }

/-- Digits with a decimal point at the given place. -/
def positionalText (wholeHasFraction : Bool) (f : DecimalForm) : List Char :=
  let count : Int := f.digits.length
  if f.point ≤ 0 then
    ['0', '.'] ++ List.replicate (-f.point).toNat '0' ++ f.digits
  else if count ≤ f.point then
    f.digits ++ List.replicate (f.point - count).toNat '0' ++ (if wholeHasFraction then ['.', '0'] else [])
  else
    f.digits.take f.point.toNat ++ ['.'] ++ f.digits.drop f.point.toNat

/-- One digit, the other digits after a point, and a signed exponent. -/
def exponentText (f : DecimalForm) : List Char :=
  let e := f.point - 1
  let tail := match f.digits.drop 1 with
    | [] => []
    | rest => '.' :: rest
  f.digits.take 1 ++ tail ++ ['e', if e < 0 then '-' else '+'] ++ Text.digitsOf e.natAbs

/-- The text of a positive finite value. -/
def Layout.magnitude (l : Layout) (q : Rat) : List Char :=
  let f := shortest l.tie q
  if l.positional f.point then positionalText l.wholeHasFraction f else exponentText f

def Layout.text (l : Layout) : Binary64 → String
  | nan => l.notANumber
  | infinite s => if s then "-" ++ l.infinity else l.infinity
  | negativeZero => if l.wholeHasFraction then "-0.0" else "-0"
  | finite q =>
    if q = 0 then (if l.wholeHasFraction then "0.0" else "0")
    else if q < 0 then String.ofList ('-' :: l.magnitude (-q))
    else String.ofList (l.magnitude q)

end Reaper.Binary64
