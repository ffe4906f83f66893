import StripePruning.Text.Piece

/-!
# Numbers from text

Integers and doubles from decimal text.  A reader takes the whole text or
fails; blanks around a number are the caller's to drop.
-/

namespace StripePruning

/-! ## Integers -/

/-- The value of one or more ASCII digits. -/
def digitsValue? (text : List Char) : Option Nat :=
  if text.isEmpty || !text.all Char.isDigit then none
  else some (text.foldl (fun value c => value * 10 + (c.toNat - '0'.toNat)) 0)

/-- The value of an optional sign and one or more ASCII digits. -/
def integerValue? : List Char → Option Int
  | '-' :: digits => (digitsValue? digits).map fun n => -(n : Int)
  | '+' :: digits => (digitsValue? digits).map Int.ofNat
  | digits => (digitsValue? digits).map Int.ofNat

/-- The 64-bit integer that a text stands for.  A number outside the range is
refused, never wrapped. -/
def readInt64? (text : List Char) : Option Int64 :=
  match integerValue? text with
  | some n =>
    if Int64.minValue.toInt ≤ n ∧ n ≤ Int64.maxValue.toInt then some (Int64.ofInt n) else none
  | none => none

/-- The natural below `2 ^ 64` that a text stands for.  A plus sign is
allowed, a minus sign is not. -/
def readSize? (text : List Char) : Option Nat :=
  let digits :=
    match text with
    | '+' :: digits => digits
    | digits => digits
  match digitsValue? digits with
  | some n => if n < Nat.pow 2 64 then some n else none
  | none => none

/-! ## Doubles -/

/-- The number of decimal digits of `n`, zero for zero. -/
def decimalLength (n : Nat) : Nat :=
  if n = 0 then 0 else (toString n).length

/-- The double nearest to `digits * 10 ^ exponent`, with a sign.  Exponents far
outside the range of doubles are answered from the size of the number alone. -/
def nearestDouble (negative : Bool) (digits : Nat) (exponent : Int) : Float :=
  let size := exponent + decimalLength digits
  let magnitude : Float :=
    if digits = 0 ∨ size < -400 then 0.0
    else if size > 400 then 1.0 / 0.0
    else if exponent ≥ 0 then Float.ofScientific (digits * Nat.pow 10 exponent.toNat) false 0
    else Float.ofScientific digits true (-exponent).toNat
  if negative then -magnitude else magnitude

/-- The exponent part of a decimal: nothing, or `e` and a signed integer. -/
def exponentPart? : List Char → Option Int
  | [] => some 0
  | c :: rest => if c = 'e' ∨ c = 'E' then integerValue? rest else none

/-- The digits and the exponent of an unsigned decimal such as `12`, `1.5`,
`.5`, `5.` or `1e-3`.  At least one digit stands before the exponent. -/
def decimalParts? (text : List Char) : Option (Nat × Int) := do
  let whole := text.takeWhile Char.isDigit
  let rest := text.dropWhile Char.isDigit
  let (fraction, rest) :=
    match rest with
    | '.' :: rest => (rest.takeWhile Char.isDigit, rest.dropWhile Char.isDigit)
    | rest => ([], rest)
  let digits ← digitsValue? (whole ++ fraction)
  let exponent ← exponentPart? rest
  return (digits, exponent - fraction.length)

/-- The double that an unsigned text stands for: an infinity or NaN by name,
in any case, or the double nearest to a decimal. -/
def readMagnitude? (negative : Bool) (text : List Char) : Option Float :=
  let name := String.ofList (lowerCase text)
  if name = "inf" ∨ name = "infinity" then
    some (if negative then -1.0 / 0.0 else 1.0 / 0.0)
  else if name = "nan" then
    some (0.0 / 0.0)
  else
    (decimalParts? text).map fun (digits, exponent) => nearestDouble negative digits exponent

/-- The double that a text stands for, with an optional sign. -/
def readDouble? : List Char → Option Float
  | '-' :: text => readMagnitude? true text
  | '+' :: text => readMagnitude? false text
  | text => readMagnitude? false text

end StripePruning
