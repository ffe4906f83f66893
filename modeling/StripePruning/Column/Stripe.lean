import StripePruning.Column.Basic

/-!
# Stripes

A stripe is a group of consecutive rows.  All stripes of a column have
`stripeSize` rows, except that the last one may have fewer.  `Column.stripe`
cuts one stripe out of the rows, and `Column.stripes` lists them all; `chunks`
cuts a list in the same way.  `Column.stripeInWords?` cuts a stripe with words of 64
bits, in which row numbers may not fit.
-/

namespace StripePruning

/-- The consecutive pieces of a list, `size` elements long except the last.
There are none of size zero. -/
def chunks {α : Type} (size : Nat) (values : List α) : List (List α) :=
  match values with
  | [] => []
  | value :: rest =>
    if size = 0 then []
    else (value :: rest).take size :: chunks size (rest.drop (size - 1))
termination_by values.length
decreasing_by simp only [List.length_drop, List.length_cons]; omega

namespace Column

/-- The number of stripes of a size, none for size zero. -/
def numStripes (c : Column) (stripeSize : Nat) : Nat :=
  if stripeSize = 0 then 0 else (c.numRows + (stripeSize - 1)) / stripeSize

/-- The values of stripe `id`: the rows from `stripeSize * id` on, as far as
there are rows. -/
def stripe (c : Column) (stripeSize id : Nat) : Array Int64 :=
  let first := min (stripeSize * id) c.numRows
  let last := min (first + stripeSize) c.numRows
  c.values.extract first last

/-- Whether stripe `id` holds a value. -/
def stripeContains (c : Column) (stripeSize id : Nat) (value : Int64) : Bool :=
  (c.stripe stripeSize id).contains value

/-- The values of all stripes in order. -/
def stripes (c : Column) (stripeSize : Nat) : List (List Int64) :=
  (List.range (c.numStripes stripeSize)).map fun id => (c.stripe stripeSize id).toList

/-- Whether the stripes take no bytes once compressed: only a column without
stripes does, as no compressed stripe is empty. -/
def compressesToNothing (c : Column) (stripeSize : Nat) : Bool :=
  c.numStripes stripeSize == 0

end Column

/-! ## Stripes in words -/

/-- The greatest word.  Sums and products that are greater stop there. -/
def greatestWord : UInt64 := 18446744073709551615

/-- The product of two words, or the greatest word if the product is none. -/
def saturatingMul (a b : UInt64) : UInt64 :=
  if a.toNat * b.toNat < UInt64.size then a * b else greatestWord

/-- The sum of two words, or the greatest word if the sum is none. -/
def saturatingAdd (a b : UInt64) : UInt64 :=
  if a.toNat + b.toNat < UInt64.size then a + b else greatestWord

/-- The quotient of two words, rounded up. -/
def ceilDiv (a b : UInt64) : UInt64 :=
  if 0 < a % b then a / b + 1 else a / b

/-- The values from place `first` on and before place `last`.  The places must be in
order and must not lie past the end. -/
def slice? {α : Type} (values : Array α) (first last : UInt64) : Option (Array α) :=
  if first ≤ last ∧ last.toNat ≤ values.size then
    some (values.extract first.toNat last.toNat)
  else
    none

namespace Column

/-- The number of stripes as a word. -/
def numStripesInWords (c : Column) (stripeSize : UInt64) : UInt64 :=
  if stripeSize = 0 then 0 else ceilDiv c.numRows.toUInt64 stripeSize

/-- The values of stripe `id`, with bounds that are words. -/
def stripeInWords? (c : Column) (stripeSize id : UInt64) : Option (Array Int64) :=
  let rows := c.numRows.toUInt64
  let first := min (saturatingMul stripeSize id) rows
  let last := min (saturatingAdd first stripeSize) rows
  slice? c.values first last

end Column

end StripePruning
