import StripePruning.Column.Stripe
import StripePruning.Delimited.Cell
import StripePruning.Delimited.Record
import StripePruning.Table.Basic

/-!
# Tables from delimited files

A table is loaded from chosen columns of a file.  The first records show the
types of the columns.  All records are then read in batches, and every record
must have as many fields as the header.

A failure is reported as early as it shows: first that the file cannot be
opened, then a malformed record among the first ones, then a column that is
not there, and at last a malformed record or cell further on.
-/

namespace StripePruning

namespace Delimited

/-- The number of records that show the types of the columns. -/
def sampleRows : Nat := 1000

/-- The number of records that are read at a time. -/
def batchRows : Nat := 1024

/-- The records that show the types of the columns, as text. -/
structure Sample where
  header : List String
  rows : List (List String)

/-- The items at a position of some records. -/
def cellsAt {α : Type} [Inhabited α] (position : Nat) (rows : List (List α)) : List α :=
  rows.map fun row => row.getD position default

namespace Sample

/-- The place of the first column with a name. -/
def position (s : Sample) (path : RawText) (name : String) : Except Error Nat :=
  match s.header.findIdx? (· == name) with
  | some position => .ok position
  | none => .error (.columnNotFound name (.file path.display))

/-- The type of the column at a position. -/
def cellType (s : Sample) (position : Nat) : Option CellType :=
  CellType.ofCells (cellsAt position s.rows)

end Sample

namespace Sheet

/-- Whether some records have as many fields as the header. -/
def fits (s : Sheet) (rows : List Record) : Bool :=
  rows.all fun row => row.length = s.header.length

/-- The sample of a sheet, if its records fit the header and each of their
fields is text. -/
def sample? (s : Sheet) : Option Sample :=
  let rows := s.rows.take sampleRows
  if s.fits rows then do
    return { header := ← s.header.mapM textOf?, rows := ← rows.mapM (·.mapM textOf?) }
  else none

/-- Whether the fields of some records, put one behind the other, are text.  A
character may go on from one field to the next. -/
def isText (rows : List Record) : Bool :=
  (textOf? rows.flatten.flatten).isSome

/-- Whether all records can be read. -/
def isSound (s : Sheet) : Bool :=
  s.fits s.rows && (chunks batchRows s.rows).all isText && !s.isBlank

/-- The column of a type at a position, under a name. -/
def column (s : Sheet) (name : String) (type : Option CellType) (position : Nat) :
    Except Error Column := do
  let cells ← (chunks batchRows s.rows).foldlM
    (fun cells rows => cells.push type (cellsAt position rows)) (Cells.empty type)
  return cells.toColumn name

/-- The table of the named columns of a sheet that was read from a path. -/
def table (s : Sheet) (path : RawText) (names : List String) : Except Error Table := do
  let some sample := s.sample? | throw .malformedRecords
  let positions ← names.mapM (sample.position path)
  if !s.isSound then throw .malformedRecords
  let columns ← (names.zip positions).mapM fun (name, position) =>
    s.column name (sample.cellType position) position
  Table.ofColumns (fileStem path) columns

end Sheet

/-- The table of the named columns of a file. -/
def load (files : Files) (path : RawText) (names : List String) : Except Error Table :=
  match files.entry path with
  | .ok (.file content) => (Sheet.ofBytes content.data.toList).table path names
  | .ok .directory => .error .malformedRecords
  | .error _ => .error .unreadableInput

end Delimited

end StripePruning
