import Reaper.Binary64.Rounding

/-!
Binary64 numbers: finite values, a zero with a minus sign, two infinities, and not-a-number.

A finite value is the rational it denotes, so arithmetic is exact arithmetic followed by one rounding (`ofRat`), and
comparison is comparison of rationals. Results past the largest finite value become infinite.
-/

namespace Reaper

/-- A binary64 number. `finite 0` is the zero with a plus sign. -/
inductive Binary64 where
  | finite (value : Rat)
  | negativeZero
  | infinite (negative : Bool)
  | nan
  deriving DecidableEq, Repr

namespace Binary64

instance : Inhabited Binary64 := ⟨finite 0⟩

/-- The bound that finite magnitudes stay below, `2 ^ 1024`. -/
def overflow : Rat := ((1 <<< 1024 : Nat) : Rat)

/-- A zero with the sign asked for. -/
def zero (negative : Bool) : Binary64 := if negative then negativeZero else finite 0

/-- The binary64 number closest to a rational. An exact zero takes the sign asked for; what rounds to zero from below
keeps its minus sign. -/
def ofRat (q : Rat) (zeroNegative : Bool := false) : Binary64 :=
  let r := Rounding.nearest q
  if r = 0 then zero (if q = 0 then zeroNegative else q < 0)
  else if overflow ≤ r then infinite false
  else if r ≤ -overflow then infinite true
  else finite r

/-- The binary64 number closest to an integer. -/
def ofInt (i : Int) : Binary64 := ofRat i

/-- The rational that a finite number denotes. -/
def toRat? : Binary64 → Option Rat
  | finite q => some q
  | negativeZero => some 0
  | _ => none

/-- Neither infinite nor not-a-number. -/
def isFinite (x : Binary64) : Bool := x.toRat?.isSome

/-- Carries a minus sign. -/
def isNegative : Binary64 → Bool
  | finite q => q < 0
  | negativeZero => true
  | infinite s => s
  | nan => false

def neg : Binary64 → Binary64
  | finite q => if q = 0 then negativeZero else finite (-q)
  | negativeZero => finite 0
  | infinite s => infinite !s
  | nan => nan

def abs : Binary64 → Binary64
  | finite q => finite q.abs
  | negativeZero => finite 0
  | infinite _ => infinite false
  | nan => nan

/-- Sum, rounded once. -/
def add : Binary64 → Binary64 → Binary64
  | nan, _ => nan
  | _, nan => nan
  | infinite s, infinite t => if s = t then infinite s else nan
  | infinite s, _ => infinite s
  | _, infinite t => infinite t
  | negativeZero, negativeZero => negativeZero
  | negativeZero, finite q => finite q
  | finite p, negativeZero => finite p
  | finite p, finite q => ofRat (p + q)

/-- Difference, rounded once. -/
def sub (x y : Binary64) : Binary64 := add x (neg y)

/-- Product, rounded once. -/
def mul (x y : Binary64) : Binary64 :=
  let s := x.isNegative != y.isNegative
  match x, y with
  | nan, _ => nan
  | _, nan => nan
  | infinite _, z => if z.toRat? = some 0 then nan else infinite s
  | z, infinite _ => if z.toRat? = some 0 then nan else infinite s
  | x, y => ofRat (x.toRat?.getD 0 * y.toRat?.getD 0) s

/-- Quotient, rounded once. -/
def div (x y : Binary64) : Binary64 :=
  let s := x.isNegative != y.isNegative
  match x, y with
  | nan, _ => nan
  | _, nan => nan
  | infinite _, infinite _ => nan
  | infinite _, _ => infinite s
  | _, infinite _ => zero s
  | x, y =>
    let p := x.toRat?.getD 0
    let q := y.toRat?.getD 0
    if q = 0 then (if p = 0 then nan else infinite s) else ofRat (p / q) s

instance : Neg Binary64 := ⟨neg⟩
instance : Add Binary64 := ⟨add⟩
instance : Sub Binary64 := ⟨sub⟩
instance : Mul Binary64 := ⟨mul⟩
instance : Div Binary64 := ⟨div⟩

/-- Strictly less; false when either is not a number. -/
def lt : Binary64 → Binary64 → Bool
  | nan, _ => false
  | _, nan => false
  | infinite s, infinite t => s && !t
  | infinite s, _ => s
  | _, infinite t => !t
  | x, y => x.toRat?.getD 0 < y.toRat?.getD 0

/-- Equal as numbers: the two zeros agree, and nothing equals not-a-number. -/
def same : Binary64 → Binary64 → Bool
  | nan, _ => false
  | _, nan => false
  | infinite s, infinite t => s == t
  | infinite _, _ => false
  | _, infinite _ => false
  | x, y => x.toRat?.getD 0 = y.toRat?.getD 0

/-- Less or equal; false when either is not a number. -/
def le (x y : Binary64) : Bool := lt x y || same x y

/-- `2 ^ (-52)`, the distance from one to the next number above it. -/
def epsilon : Binary64 := finite (mkRat 1 (1 <<< 52))

/-- The whole power of a number by repeated squaring, from the lowest binary digit of the exponent up. -/
def power (x : Binary64) (exponent : Nat) : Binary64 :=
  go exponent x exponent (finite 1)
where
  /-- Multiplies the square in when the digit is one; `fuel` bounds the number of digits. -/
  go : Nat → Binary64 → Nat → Binary64 → Binary64
    | 0, x, e, acc => if e % 2 = 1 then acc * x else acc
    | fuel + 1, x, e, acc =>
      let acc := if e % 2 = 1 then acc * x else acc
      if e / 2 = 0 then acc else go fuel (x * x) (e / 2) acc

/-- The integer part of a finite number, toward zero. -/
def truncate? (x : Binary64) : Option Int :=
  x.toRat?.map fun q => Int.tdiv q.num q.den

/-- The sixty-four bits: sign, eleven of exponent, fifty-two of fraction. -/
def toBits : Binary64 → Nat
  | nan => 0x7ff8000000000000
  | infinite s => (if s then 1 <<< 63 else 0) + 0x7ff0000000000000
  | negativeZero => 1 <<< 63
  | finite q =>
    if q.num = 0 then 0
    else
      let n := q.num.natAbs
      let u := Rounding.stepExponent n q.den
      let m := Rounding.steps n q.den u
      let s := if q.num < 0 then 1 <<< 63 else 0
      -- the hidden bit of a normal significand carries into the exponent field
      s + (u + 1074).toNat * (1 <<< 52) + m

end Binary64

end Reaper
