/-!
Rounding rationals to the binary64 grid.

The grid has a step at every magnitude: numbers between `2 ^ e` and `2 ^ (e + 1)` are spaced `2 ^ (e - 52)` apart,
and never closer than `2 ^ (-1074)`. `nearest` takes a rational to the closest point of the grid, the one with the
even multiple when two are equally close. The grid has no upper end here: overflow is decided by those who care.
Arithmetic on floating-point numbers is exact arithmetic followed by `nearest`; a computation read exactly is the
same computation with `Rounding.exact` in its place.
-/

namespace Reaper

/-- What is done to the exact result of each arithmetic operation. -/
abbrev Rounding := Rat → Rat

namespace Rounding

/-- Nothing: arithmetic on rationals as it stands. -/
def exact : Rounding := id

/-- The quotient of two naturals rounded to a natural, a half to the even side. -/
def quotient (n d : Nat) : Nat :=
  let k := n / d
  let r := n % d
  if 2 * r < d then k
  else if d < 2 * r then k + 1
  else if k % 2 = 0 then k else k + 1

/-- The largest `e` with `2 ^ e ≤ n / d`, for positive `n` and `d`. -/
def binaryExponent (n d : Nat) : Int :=
  let e : Int := (n.log2 : Int) - d.log2
  let below : Bool := if 0 ≤ e then n < d <<< e.toNat else n <<< (-e).toNat < d
  if below then e - 1 else e

/-- The exponent of the grid's step at a positive `n / d`. -/
def stepExponent (n d : Nat) : Int := max (binaryExponent n d - 52) (-1074)

/-- `n / d` counted in steps of `2 ^ u`, rounded. -/
def steps (n d : Nat) (u : Int) : Nat :=
  if 0 ≤ u then quotient n (d <<< u.toNat) else quotient (n <<< (-u).toNat) d

/-- `k * 2 ^ u`. -/
def scaled (k : Nat) (u : Int) : Rat :=
  if 0 ≤ u then ((k <<< u.toNat : Nat) : Rat) else mkRat k (1 <<< (-u).toNat)

/-- The grid point closest to a positive `n / d`. -/
def magnitude (n d : Nat) : Rat :=
  let u := stepExponent n d
  scaled (steps n d u) u

/-- The grid point closest to a rational. -/
def nearest : Rounding := fun q =>
  if q.num = 0 then 0
  else if q.num < 0 then -magnitude q.num.natAbs q.den
  else magnitude q.num.natAbs q.den

end Rounding

end Reaper
