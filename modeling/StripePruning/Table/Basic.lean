import StripePruning.Column.Basic
import StripePruning.Random.Keystream
import StripePruning.Random.Range
import StripePruning.Table.Sorting

/-!
# Tables

A table is a list of columns with the same number of rows.  Its rows can be
put into another order: all columns are reordered in the same way, so the
values of a row stay together.
-/

namespace StripePruning

/-- A named list of columns. -/
structure Table where
  name : String
  columns : List Column

namespace Table

/-- The table of some columns, which must all have as many rows as the first
one. -/
def ofColumns (name : String) (columns : List Column) : Except Error Table :=
  match columns with
  | [] => .ok { name, columns }
  | first :: _ =>
    match columns.find? fun c => c.numRows ≠ first.numRows with
    | some c => .error (.raggedTable c.name first.numRows c.numRows)
    | none => .ok { name, columns }

/-- The number of rows. -/
def numRows (t : Table) : Nat :=
  match t.columns with
  | [] => 0
  | first :: _ => first.numRows

/-- The first column with a name. -/
def column (t : Table) (name : String) : Except Error Column :=
  match t.columns.find? fun c => c.name == name with
  | some c => .ok c
  | none => .error (.columnNotFound name (.table t.name))

/-! ## Order of the rows -/

/-- The table whose row `i` is row `rows[i]` of this one. -/
def reorder (t : Table) (rows : Array Nat) : Except Error Table := do
  return { t with columns := ← t.columns.mapM (·.reorder rows) }

/-- The columns as sorting keys: those with fewer different values first, and
otherwise in the order of the table. -/
def sortKeys (t : Table) : List Column :=
  t.columns.mergeSort fun a b => a.cardinality ≤ b.cardinality

/-- Whether a row comes no later than another under the given keys. -/
def rowLE : List Column → Nat → Nat → Bool
  | [], _, _ => true
  | key :: keys, i, j =>
    let x := key.values.getD i Column.nullValue
    let y := key.values.getD j Column.nullValue
    if x = y then rowLE keys i j else x < y

/-- The numbers of the rows in the order of the sorting keys. -/
def sortedRows (t : Table) : Array Nat :=
  ((List.range t.numRows).mergeSort (rowLE t.sortKeys)).toArray

/-- The table with its rows sorted by its keys. -/
def sortByCardinality (t : Table) : Except Error Table :=
  t.reorder t.sortedRows

/-- The seed of random arrangements. -/
def shuffleSeed : UInt64 := 42

/-- The numbers of the rows in the random order that is the same for every run. -/
def shuffledRows (t : Table) : Except Error (Array Nat) :=
  match (Draw.shuffle (Array.range t.numRows)).run (Keystream.ofSeed shuffleSeed) with
  | some (rows, _) => .ok rows
  | none => .error .unfinishedDraw

/-- The table with its rows in a random order, the same for every run. -/
def shuffle (t : Table) : Except Error Table := do
  t.reorder (← t.shuffledRows)

/-- The table with its rows arranged as a mode asks. -/
def applySorting (t : Table) : Sorting → Except Error Table
  | .none => .ok t
  | .byCardinality => t.sortByCardinality
  | .random => t.shuffle

/-! ## Text -/

/-- One row as text, its values separated by commas. -/
def rowText (t : Table) (row : Nat) : String :=
  ",".intercalate (t.columns.map fun c => toString (c.values.getD row Column.nullValue))

/-- The rows as text, each on a line of its own. -/
def toDelimited (t : Table) : String :=
  String.join ((List.range t.numRows).map fun row => t.rowText row ++ "\n")

end Table

end StripePruning
