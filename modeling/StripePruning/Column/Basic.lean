import Std.Data.TreeSet
import StripePruning.Error

/-!
# Columns

A column holds one 64-bit integer for each row.  It also keeps the set of its
different values as it was when the column was made; putting the rows into
another order leaves that set alone.
-/

namespace StripePruning

/-- A named column of integers. -/
structure Column where
  name : String
  values : Array Int64
  /-- The values that the column was made with. -/
  distinct : Std.TreeSet Int64

namespace Column

/-- The value that stands for a missing one. -/
def nullValue : Int64 := Int64.minValue

/-- The column of the given values. -/
def ofValues (name : String) (values : Array Int64) : Column :=
  { name, values, distinct := Std.TreeSet.ofList values.toList }

/-- The number of rows. -/
def numRows (c : Column) : Nat :=
  c.values.size

/-- The value of a row, if there is such a row. -/
def valueAt? (c : Column) (row : Nat) : Option Int64 :=
  c.values[row]?

/-- Whether a value is among the different values of the column. -/
def contains (c : Column) (value : Int64) : Bool :=
  c.distinct.contains value

/-- The different values in ascending order. -/
def distinctValues (c : Column) : List Int64 :=
  c.distinct.toList

/-- The number of different values. -/
def cardinality (c : Column) : Nat :=
  c.distinct.size

/-- The column whose row `i` is row `rows[i]` of this one.  Rows may be left
out or repeated, but each must exist. -/
def reorder (c : Column) (rows : Array Nat) : Except Error Column :=
  match rows.find? (c.numRows ≤ ·) with
  | some row => .error (.rowOutOfRange row c.numRows)
  | none => .ok { c with values := rows.map fun row => c.values.getD row nullValue }

end Column

end StripePruning
