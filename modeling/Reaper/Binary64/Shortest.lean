import Reaper.Binary64
import Reaper.Text.Digits

/-!
The fewest decimal digits that read back.

A number stands for the interval of rationals that round to it; the ends belong to it when its significand is even.
`shortest` looks on ever finer decimal grids for a point of that interval. Only the two neighbours of the value on
a grid can be in it when no coarser grid has one, so two candidates are tested for each count of digits. Of two hits
the closer is taken, and a tie goes as the notation says.
-/

namespace Reaper.Binary64

/-- A positive decimal number `digits * 10 ^ (point - count)`: `count` digits of which the first stands just after
the decimal point when `point` is zero. -/
structure DecimalForm where
  digits : List Char
  point : Int
  deriving DecidableEq, Repr

/-- Which of two equally close decimal neighbours is taken. -/
inductive Tie where
  | up
  | toEven
  deriving DecidableEq, Repr

/-- `10 ^ e`. -/
def tenPower (e : Int) : Rat :=
  if 0 ≤ e then (Nat.pow 10 e.toNat : Rat) else mkRat 1 (Nat.pow 10 (-e).toNat)

/-- The least `k` with `n / d < 10 ^ k`, for positive `n` and `d`. -/
def decimalPoint (n d : Nat) : Int :=
  if d ≤ n then (Text.digitsOf (n / d)).length
  else 1 - ((Text.digitsOf ((d - 1) / n)).length : Int)

/-- The rationals that round to a positive grid point. -/
structure Basin where
  low : Rat
  high : Rat
  closed : Bool

/-- The basin of `m * 2 ^ u`; the gap below a power of two is half the gap above. -/
def basin (m : Nat) (u : Int) : Basin :=
  let half := Rounding.scaled 1 (u - 1)
  let q := Rounding.scaled m u
  let below := if m = 1 <<< 52 ∧ -1074 < u then Rounding.scaled 1 (u - 2) else half
  ⟨q - below, q + half, m % 2 = 0⟩

/-- Whether a rational rounds to the basin's number. -/
def Basin.holds (b : Basin) (q : Rat) : Bool :=
  if b.closed then b.low ≤ q && q ≤ b.high else b.low < q && q < b.high

/-- The best point of the basin among the two neighbours of `q` on the grid `10 ^ g`. -/
def neighbour? (tie : Tie) (b : Basin) (q : Rat) (g : Int) : Option Nat :=
  let step := tenPower g
  let k := (q / step).floor.toNat
  let low : Rat := (k : Rat) * step
  let high : Rat := ((k + 1 : Nat) : Rat) * step
  match b.holds low && k != 0, b.holds high with
  | true, false => some k
  | false, true => some (k + 1)
  | false, false => none
  | true, true =>
    if low + high > q + q then some k
    else if low + high < q + q then some (k + 1)
    else match tie with
      | .up => some (k + 1)
      | .toEven => if k % 2 = 0 then some k else some (k + 1)

def withoutTrailingZeros (ds : List Char) : List Char :=
  match ds with
  | [] => []
  | c :: rest =>
    match withoutTrailingZeros rest with
    | [] => if c = '0' then [] else [c]
    | kept => c :: kept

/-- The first hit on the grids with `n`, `n + 1`, … digits. -/
def searchFrom (tie : Tie) (b : Basin) (q : Rat) (point : Int) : Nat → Nat → Option DecimalForm
  | 0, _ => none
  | fuel + 1, n =>
    match neighbour? tie b q (point - n) with
    | some k =>
      let ds := Text.digitsOf k
      -- a round-up to the next power of ten has one digit more
      some ⟨withoutTrailingZeros ds, point + (ds.length - n : Int)⟩
    | none => searchFrom tie b q point fuel (n + 1)

/-- The shortest decimal form of a positive finite value. -/
def shortest (tie : Tie) (q : Rat) : DecimalForm :=
  let n := q.num.natAbs
  let u := Rounding.stepExponent n q.den
  let b := basin (Rounding.steps n q.den u) u
  let point := decimalPoint n q.den
  (searchFrom tie b q point 17 1).getD ⟨Text.digitsOf n, (Text.digitsOf n).length⟩

end Reaper.Binary64
