import StripePruning.Number.Reading

/-!
# Numerals

A numeral is a number as it is written: a sign, digits, perhaps a point with
further digits, perhaps an exponent.  `Numeral.size?` reads it as a natural
number of 64 bits and `Numeral.float?` as a double.

A double is computed in one multiplication or division from as many leading
digits as fit 64 bits.  For long numerals this is near the number written but
not always the nearest double.
-/

namespace StripePruning

/-- A number as it is written. -/
structure Numeral where
  negative : Bool
  /-- The digits before the point. -/
  whole : List Char
  /-- The digits behind the point; without a point there are none. -/
  fraction : List Char
  /-- The exponent, if one is written. -/
  exponent : Option Int
deriving DecidableEq

namespace Numeral

/-! ## Reading the parts -/

/-- The exponent at the end of a numeral: nothing, or `e` and an integer. -/
def exponentOf? : List Char → Option (Option Int)
  | [] => some none
  | c :: text => if c = 'e' ∨ c = 'E' then (integerValue? text).map some else none

/-- The digits behind a point, if there is one, and the rest of the text.  At
least one digit follows a point. -/
def fractionOf? : List Char → Option (List Char × List Char)
  | '.' :: text =>
    let digits := text.takeWhile Char.isDigit
    if digits.isEmpty then none else some (digits, text.dropWhile Char.isDigit)
  | text => some ([], text)

/-- Whether some digits may stand before the point: there is one, and the first
is zero only if it is the only one. -/
def isWhole : List Char → Bool
  | [] => false
  | ['0'] => true
  | c :: _ => c ≠ '0'

/-- The numeral that a text without a sign is. -/
def ofMagnitude? (negative : Bool) (text : List Char) : Option Numeral := do
  let whole := text.takeWhile Char.isDigit
  let (fraction, rest) ← fractionOf? (text.dropWhile Char.isDigit)
  let exponent ← exponentOf? rest
  if isWhole whole then some { negative, whole, fraction, exponent } else none

/-- The numeral that a text is. -/
def ofChars? : List Char → Option Numeral
  | '-' :: text => ofMagnitude? true text
  | text => ofMagnitude? false text

/-! ## Values -/

/-- The natural number below `2 ^ 64` that a numeral stands for.  It has no
sign, no point and no exponent. -/
def size? (n : Numeral) : Option Nat :=
  if n.negative ∨ !n.fraction.isEmpty ∨ n.exponent.isSome then none else readSize? n.whole

/-- Appends digits to a significand as long as it fits 64 bits.  The result is
the significand and the number of digits left over. -/
def appendDigits (significand : Nat) : List Char → Nat × Nat
  | [] => (significand, 0)
  | c :: digits =>
    let next := significand * 10 + (c.toNat - '0'.toNat)
    if next < Nat.pow 2 64 then appendDigits next digits else (significand, digits.length + 1)

/-- The greatest power of ten that is a finite double. -/
def maxPower : Nat := 308

/-- A power of ten. -/
def powerOfTen (n : Nat) : Float :=
  Float.ofScientific (Nat.pow 10 n) false 0

/-- `x / 10 ^ n`, in steps of the greatest power of ten. -/
def scaleDown (x : Float) (n : Nat) : Float :=
  if n ≤ maxPower then x / powerOfTen n
  else if x == 0.0 then x
  else scaleDown (x / powerOfTen maxPower) (n - maxPower)
termination_by n
decreasing_by simp only [maxPower] at *; omega

/-- `x * 10 ^ n`, if it is finite. -/
def scaleUp? (x : Float) (n : Nat) : Option Float :=
  if n ≤ maxPower then
    let product := x * powerOfTen n
    if product.isInf then none else some product
  else if x == 0.0 then some x
  else none

/-- The double that a numeral stands for.  One too large for a finite double
stands for none. -/
def float? (n : Numeral) : Option Float :=
  let (significand, dropped) := appendDigits 0 n.whole
  let (significand, unused) := appendDigits significand n.fraction
  let used : Int := n.fraction.length - unused
  let exponent := n.exponent.getD 0 + dropped - used
  let x := significand.toUInt64.toFloat
  let magnitude? :=
    if 0 ≤ exponent then scaleUp? x exponent.toNat else some (scaleDown x (-exponent).toNat)
  magnitude?.map fun magnitude => if n.negative then -magnitude else magnitude

end Numeral

end StripePruning
