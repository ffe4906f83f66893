import StripePruning.Number.Shortest

/-!
# Doubles as text

Three notations of a double: `positional` writes the shortest decimal without
an exponent, `fixedPlaces` rounds the exact value to a number of places, and
`compact` writes the shortest decimal and moves to an exponent where the plain
form would grow long.
-/

namespace StripePruning

/-- Digits of `n` after at least enough zeros to have `width` characters. -/
def paddedDigits (width n : Nat) : String :=
  let text := toString n
  String.ofList (List.replicate (width - text.length) '0') ++ text

/-- `digits * 10 ^ -places` with a point, and at least one digit before it. -/
def pointed (places digits : Nat) : String :=
  let whole := toString (digits / Nat.pow 10 places)
  if places = 0 then whole else whole ++ "." ++ paddedDigits places (digits % Nat.pow 10 places)

/-- The sign in front of a text. -/
def signed (negative : Bool) (text : String) : String :=
  if negative then "-" ++ text else text

/-- A decimal without an exponent: `1200`, `0.012`. -/
def Decimal.plain (d : Decimal) : String :=
  if d.exponent ≥ 0 then toString (d.digits * Nat.pow 10 d.exponent.toNat)
  else pointed (-d.exponent).toNat d.digits

/-- The shortest decimal of a double, never with an exponent.  Of two nearest
decimals the larger is written. -/
def positional (x : Float) : String :=
  match Binary64.ofFloat x with
  | .nan => "NaN"
  | .infinite negative => signed negative "inf"
  | .finite negative 0 _ => signed negative "0"
  | .finite negative m e => signed negative (shortest .up m e).plain

/-- The exact value of a double rounded to `places` places, a half to the even
neighbour.  The sign stays on a value that rounds to zero. -/
def fixedPlaces (places : Nat) (x : Float) : String :=
  match Binary64.ofFloat x with
  | .nan => "NaN"
  | .infinite negative => signed negative "inf"
  | .finite negative m e =>
    let (num, den) := scaledQuotient (m * Nat.pow 10 places) 2 e
    signed negative (pointed places (roundQuotient .even num den))

/-- An exponent of ten behind a decimal: the letter `e`, the sign in either
case, and no more digits than it takes. -/
def exponentText (exponent : Int) : String :=
  (if exponent < 0 then "e-" else "e+") ++ toString exponent.natAbs

/-- A decimal in the compact notation.  With the point before position
`point` of the digits, the plain form is kept for `-5 < point ≤ 16`, a whole
number there ends in `.0`, and all other decimals have one digit before the
point and an exponent. -/
def Decimal.compact (d : Decimal) : String :=
  let text := toString d.digits
  let point := d.exponent + text.length
  if d.exponent ≥ 0 ∧ point ≤ 16 then d.plain ++ ".0"
  else if -5 < point ∧ point ≤ 16 then d.plain
  else
    let fraction := if text.length = 1 then "" else "." ++ String.ofList (text.toList.drop 1)
    String.ofList (text.toList.take 1) ++ fraction ++ exponentText (point - 1)

/-- The compact notation of a finite double, of two nearest decimals the one
with even digits.  There is none for an infinity or for NaN. -/
def compact? (x : Float) : Option String :=
  match Binary64.ofFloat x with
  | .nan => none
  | .infinite _ => none
  | .finite negative 0 _ => some (signed negative "0.0")
  | .finite negative m e => some (signed negative (shortest .even m e).compact)

end StripePruning
