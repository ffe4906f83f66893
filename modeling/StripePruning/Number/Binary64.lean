/-!
# The parts of a double

A double is not a number, an infinity, or a signed product of a natural
mantissa and a power of two.  `Binary64.ofFloat` reads these parts from the
bit pattern, so text can be produced from a double in exact integer
arithmetic.
-/

namespace StripePruning

/-- A double by its parts.  A finite one stands for
`mantissa * 2 ^ exponent`, with a minus sign if `negative`. -/
inductive Binary64 where
  | nan
  | infinite (negative : Bool)
  | finite (negative : Bool) (mantissa : Nat) (exponent : Int)
deriving DecidableEq

namespace Binary64

/-- The parts of a double.  The mantissa has 53 bits, except below the
smallest normal double, where the exponent stays at `-1074`. -/
def ofFloat (x : Float) : Binary64 :=
  let bits := x.toBits.toNat
  let negative := bits / Nat.pow 2 63 == 1
  let biased : Nat := bits / Nat.pow 2 52 % 2048
  let fraction := bits % Nat.pow 2 52
  if biased = 2047 then
    if fraction = 0 then .infinite negative else .nan
  else if biased = 0 then
    .finite negative fraction (-1074)
  else
    .finite negative (Nat.pow 2 52 + fraction) ((biased : Int) - 1075)

/-- Whether a mantissa is the least one of its exponent, so that the next
double below is only half a step away. -/
def isPowerOfTwo (mantissa : Nat) (exponent : Int) : Bool :=
  mantissa == Nat.pow 2 52 && exponent > -1074

end Binary64

/-- `m * base ^ e` as a quotient of two naturals. -/
def scaledQuotient (m base : Nat) (e : Int) : Nat × Nat :=
  if e ≥ 0 then (m * base.pow e.toNat, 1) else (m, base.pow (-e).toNat)

end StripePruning
