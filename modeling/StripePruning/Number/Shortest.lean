import StripePruning.Number.Binary64
import StripePruning.Number.Rounding

/-!
# The shortest decimal of a double

Every double owns the interval of reals that round to it.  `shortest` finds
the coarsest decimal grid with a point in that interval and, of the points
there, the one nearest to the double.  The result is the decimal with the
fewest digits that reads back as the double.
-/

namespace StripePruning

/-- The decimal `digits * 10 ^ exponent`. -/
structure Decimal where
  digits : Nat
  exponent : Int
deriving DecidableEq

/-- The reals that round to one double, in units that make its bounds and its
value integers over a common denominator. -/
structure RoundingInterval where
  low : Nat
  value : Nat
  high : Nat
  den : Nat
  /-- Whether the bounds themselves round to the double. -/
  closed : Bool

namespace RoundingInterval

/-- The interval of `mantissa * 2 ^ exponent`.  Both bounds lie half a step
away; below a power of two the step is half as long.  A bound belongs to the
double with the even mantissa. -/
def ofParts (mantissa : Nat) (exponent : Int) : RoundingInterval :=
  let below := if Binary64.isPowerOfTwo mantissa exponent then 1 else 2
  let scale (n : Nat) := scaledQuotient n 2 (exponent - 2)
  { low := (scale (4 * mantissa - below)).1
    value := (scale (4 * mantissa)).1
    high := (scale (4 * mantissa + 2)).1
    den := (scale 1).2
    closed := mantissa % 2 == 0 }

/-- Whether `n * unit` lies in the interval, where `unit` is a grid step in
the units of the interval. -/
def holds (i : RoundingInterval) (n unit : Nat) : Bool :=
  if i.closed then i.low ≤ n * unit && n * unit ≤ i.high
  else i.low < n * unit && n * unit < i.high

/-- The multiple of `10 ^ e` in the interval that is nearest to its value, if
there is one.  Only the two neighbours of the value can be nearest. -/
def onGrid? (tie : Tie) (i : RoundingInterval) (e : Int) : Option Nat :=
  let grid := scaledQuotient 1 10 e
  let value := i.value * grid.2
  let unit := i.den * grid.1
  let j : RoundingInterval := { i with low := i.low * grid.2, high := i.high * grid.2 }
  let below := value / unit
  match j.holds below unit, j.holds (below + 1) unit with
  | true, true => some (roundQuotient tie value unit)
  | true, false => some below
  | false, true => some (below + 1)
  | false, false => none

/-- The first of `fuel` ever finer grids, from `10 ^ e` down, that has a point
in the interval. -/
def coarsest (tie : Tie) (i : RoundingInterval) : Nat → Int → Option Decimal
  | 0, _ => none
  | fuel + 1, e =>
    match i.onGrid? tie e with
    | some n => some { digits := n, exponent := e }
    | none => coarsest tie i fuel (e - 1)

end RoundingInterval

/-- A power of ten above `mantissa * 2 ^ exponent`: `0.30103` is slightly
more than the decimal logarithm of two. -/
def decimalCeiling (mantissa : Nat) (exponent : Int) : Int :=
  (exponent + mantissa.log2 + 1) * 30103 / 100000 + 1

/-- The shortest decimal that rounds to the positive double
`mantissa * 2 ^ exponent`, the nearest one if there are several.  Seventeen
digits always suffice, so a few grids below the ceiling are enough; the exact
value stands in where none of them answers. -/
def shortest (tie : Tie) (mantissa : Nat) (exponent : Int) : Decimal :=
  let interval := RoundingInterval.ofParts mantissa exponent
  match interval.coarsest tie 20 (decimalCeiling mantissa exponent) with
  | some d => d
  | none =>
    if exponent ≥ 0 then { digits := mantissa * Nat.pow 2 exponent.toNat, exponent := 0 }
    else { digits := mantissa * Nat.pow 5 (-exponent).toNat, exponent := exponent }

end StripePruning
