import StripePruning.Lookup.Batch
import StripePruning.Random.Checked

/-!
# Checked batches

The batches of lookup values, drawn with a check of every step that might not be valid.
-/

namespace StripePruning

namespace CheckedBatch

open CheckedDraw Batch

variable {g : Type} [RandomSource g]

/-- `size` of the given values, each equally likely; none if there are no
values. -/
def drawEvenly (values : Array Int64) (size : Nat) : CheckedDraw g (Array Int64) :=
  if values.isEmpty then pure #[] else repeated size (oneOf values)

/-- Different values of a column, each equally likely. -/
def positiveDistinct (c : Column) (size : Nat) : CheckedDraw g (Array Int64) :=
  drawEvenly (presentValues c) size

/-- Values of rows, each row equally likely. -/
def positiveUniform (c : Column) (size : Nat) : CheckedDraw g (Array Int64) :=
  drawEvenly (presentRows c) size

/-- The value with a drawn rank among the given ones, counted from one.  A rank outside
the values stands for the nearest one inside. -/
def valueOfRank (values : Array Int64) (rank : Float) : CheckedDraw g Int64 := do
  let position ← clamp 1 values.size rank.toUInt64.toNat
  demand (0 < position) .noPlace
  valueAt values (position - 1)

/-- Different values of a column, their ranks among `n` drawn by `rank n`. -/
def positiveRanked (rank : Nat → Draw g Float) (c : Column) (size : Nat) :
    CheckedDraw g (Array Int64) :=
  let values := presentValues c
  if values.isEmpty then pure #[]
  else
    repeated size do
      valueOfRank values (← ofDraw (rank values.size))

/-- Different values of a column, the least most likely. -/
def positiveZipf (c : Column) (size : Nat) : CheckedDraw g (Array Int64) :=
  positiveRanked Zipf.rank c size

/-- Values that a column does not hold. -/
def negative (c : Column) (size : Nat) (limit : Nat := drawLimit) :
    CheckedDraw g (Array Int64) :=
  repeated size (ofDraw (drawAbsent c limit))

/-- The probability of a hit: the hit rate, moved into the interval from zero to one, and
zero if it is NaN or if there are no values to hit. -/
def hitProbability (values : Array Int64) (hitRate : Float) : Float :=
  if values.isEmpty || hitRate.isNaN then 0.0
  else if hitRate < 0.0 then 0.0
  else if 1.0 < hitRate then 1.0
  else hitRate

/-- Different values of a column with the given probability, and values that
it does not hold otherwise. -/
def mixed (c : Column) (hitRate : Float) (size : Nat) (limit : Nat := drawLimit) :
    CheckedDraw g (Array Int64) :=
  let values := presentValues c
  let probability := hitProbability values hitRate
  repeated size do
    if ← toss probability then oneOf values else ofDraw (drawAbsent c limit)

end CheckedBatch

end StripePruning
