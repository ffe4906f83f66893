import Std.Data.TreeMap
import StripePruning.Column.Basic
import StripePruning.Delimited.Calendar
import StripePruning.Delimited.CellType
import StripePruning.Delimited.Record
import StripePruning.Text.Decoding

/-!
# Columns from cells

Cells become integers according to the type of their column.  Truth values are
one and zero, decimals lose their fraction, dates are days and timestamps are
units of time.  Texts are numbered by their place among the different texts of
the column in byte order, so the numbers keep the order of the texts.  An empty
cell is null.
-/

namespace StripePruning

namespace Delimited

/-! ## Values of cells -/

/-- A decimal without its fraction, null if that is no 64-bit integer. -/
def wholePart (x : Float) : Int64 :=
  if -9223372036854775808.0 ≤ x && x < 9223372036854775808.0 then x.toInt64
  else Column.nullValue

/-- A 64-bit integer, if the number is one. -/
def int64? (n : Int) : Option Int64 :=
  if Int64.minValue.toInt ≤ n ∧ n ≤ Int64.maxValue.toInt then some (Int64.ofInt n) else none

/-- The value of a truth value, in any case. -/
def boolean? (text : List Char) : Option Int64 :=
  let word := lowerCase text
  if word == "true".toList then some 1
  else if word == "false".toList then some 0
  else none

/-- The value of a cell of a column of numbers, if the cell fits the type of the
column.  Without a type all cells are null. -/
def value? (type : Option CellType) (cell : Field) : Option Int64 :=
  if cell.isEmpty then some Column.nullValue
  else
    let text := charsOf cell
    match type with
    | none => some Column.nullValue
    | some .boolean => boolean? text
    | some .integer => readInt64? text
    | some .decimal => (readDouble? text).map wholePart
    | some .date => do int64? (← day? cell.length text)
    | some (.timestamp places) => do int64? ((← instant? text).inUnits places)
    | some .text => none

/-! ## Numbers for texts -/

/-- The places of the different texts among some cells, from zero on in byte
order. -/
def places (cells : List (Option Field)) : Std.TreeMap Field Nat :=
  let texts := (Std.TreeMap.ofList (cells.reduceOption.map fun text => (text, ()))).keys
  Std.TreeMap.ofList texts.zipIdx

/-- The numbers of the texts of some cells. -/
def textNumbers (cells : List (Option Field)) : List Int64 :=
  let places := places cells
  cells.map fun
    | some text => Int64.ofNat (places.getD text 0)
    | none => Column.nullValue

/-! ## Columns -/

/-- The cells of a column as far as they have been read. -/
inductive Cells where
  | numbers (values : Array Int64)
  | texts (cells : Array (Option Field))

namespace Cells

/-- No cells of a type. -/
def empty : Option CellType → Cells
  | some .text => .texts #[]
  | _ => .numbers #[]

/-- The cell of a column of texts. -/
def text? (cell : Field) : Option Field :=
  if cell.isEmpty then none else some cell

/-- The cells with a batch of further cells. -/
def push (type : Option CellType) (cells : Cells) (batch : List Field) : Except Error Cells :=
  match cells with
  | .numbers values =>
    match batch.mapM (value? type) with
    | some more => .ok (.numbers (values ++ more))
    | none => .error .malformedRecords
  | .texts read => .ok (.texts (read ++ batch.map text?))

/-- The column of the cells that have been read. -/
def toColumn (name : String) : Cells → Column
  | .numbers values => Column.ofValues name values
  | .texts read => Column.ofValues name (textNumbers read.toList).toArray

end Cells

end Delimited

end StripePruning
