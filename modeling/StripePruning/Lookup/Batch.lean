import StripePruning.Column.Basic
import StripePruning.Random.Keystream
import StripePruning.Random.Range
import StripePruning.Random.Zipf

/-!
# Batches of lookup values

A batch is a list of values to look up in an index.  Positive batches take
values that a column holds, never the null value; negative ones take values
that it does not hold; mixed ones take both.  Every batch is drawn from a
random source.
-/

namespace StripePruning

namespace Batch

variable {g : Type} [RandomSource g]

/-! ## What a batch chooses from -/

/-- The different values of a column in ascending order, without the null
value. -/
def presentValues (c : Column) : Array Int64 :=
  (c.distinctValues.filter (· ≠ Column.nullValue)).toArray

/-- The values of the rows in order, without the null value. -/
def presentRows (c : Column) : Array Int64 :=
  c.values.filter (· ≠ Column.nullValue)

/-- A value that a column does not hold, found among at most `limit` drawn ones. -/
def drawAbsent (c : Column) (limit : Nat := drawLimit) : Draw g Int64 :=
  Draw.firstOf
    (do
      let value ← Draw.int64
      return if c.contains value then none else some value)
    limit

/-- `size` of the given values, each equally likely; none if there are no
values. -/
def drawEvenly (values : Array Int64) (size : Nat) : Draw g (Array Int64) :=
  if values.isEmpty then pure #[] else Draw.repeated size (Draw.oneOf values)

/-! ## Batches -/

/-- Different values of a column, each equally likely. -/
def positiveDistinct (c : Column) (size : Nat) : Draw g (Array Int64) :=
  drawEvenly (presentValues c) size

/-- Values of rows, each row equally likely. -/
def positiveUniform (c : Column) (size : Nat) : Draw g (Array Int64) :=
  drawEvenly (presentRows c) size

/-- The place in a list of `count` values of a drawn rank, kept within the
list. -/
def placeOfRank (count : Nat) (rank : Float) : Nat :=
  max 1 (min count rank.toUInt64.toNat) - 1

/-- Different values of a column, their ranks among `n` drawn by `rank n`. -/
def positiveRanked (rank : Nat → Draw g Float) (c : Column) (size : Nat) :
    Draw g (Array Int64) :=
  let values := presentValues c
  if values.isEmpty then pure #[]
  else
    Draw.repeated size do
      let drawn ← rank values.size
      return values.getD (placeOfRank values.size drawn) Column.nullValue

/-- Different values of a column, the least most likely: the weight of the
`k`-th value is the inverse square of `k`. -/
def positiveZipf (c : Column) (size : Nat) : Draw g (Array Int64) :=
  positiveRanked Zipf.rank c size

/-- Values that a column does not hold. -/
def negative (c : Column) (size : Nat) (limit : Nat := drawLimit) : Draw g (Array Int64) :=
  Draw.repeated size (drawAbsent c limit)

/-- Different values of a column with the given probability, and values that
it does not hold otherwise.  A column without values gives only the latter. -/
def mixed (c : Column) (hitRate : Float) (size : Nat) (limit : Nat := drawLimit) :
    Draw g (Array Int64) :=
  let values := presentValues c
  let coin := if values.isEmpty then .below 0 else Coin.ofProbability hitRate
  Draw.repeated size do
    if ← coin.toss then Draw.oneOf values else drawAbsent c limit

/-! ## Seeds -/

/-- The seed of batches where none is given. -/
def standardSeed : UInt64 := 42

/-- What a drawing gives for the stream of a seed. -/
def seeded {α : Type} (seed : UInt64) (draw : Draw Keystream α) : Except Error α :=
  match draw.run (Keystream.ofSeed seed) with
  | some (value, _) => .ok value
  | none => .error .unfinishedDraw

end Batch

end StripePruning
