/-!
# Delimited records

Delimited text is a list of records, one to a line, and a record is a list of
fields between commas.  A field that starts with a quote goes on to the next
single quote; commas and line ends in it are part of the field, and a doubled
quote stands for one.  Blank lines are skipped, and a byte order mark at the
start is dropped.

Records are cut byte by byte.  Whether the bytes of a field are text is left to
those who read it.
-/

namespace StripePruning

namespace Delimited

/-- The bytes of a field. -/
abbrev Field := List UInt8

/-- The fields of a record. -/
abbrev Record := List Field

/-! ## Reading byte by byte -/

/-- The byte between two fields. -/
def comma : UInt8 := ','.toUInt8

/-- The byte around a field that may hold commas and line ends. -/
def quote : UInt8 := '"'.toUInt8

/-- Whether a byte ends a line. -/
def isLineEndByte (byte : UInt8) : Bool :=
  byte = '\n'.toUInt8 || byte = '\r'.toUInt8

/-- What the next byte is part of. -/
inductive Place where
  /-- A blank line or a new record. -/
  | betweenRecords
  /-- The start of a field. -/
  | fieldStart
  /-- A field without quotes, or what stands behind a quoted part. -/
  | plainField
  /-- A quoted field. -/
  | quotedField
  /-- The end of a quoted field, or the second half of a doubled quote. -/
  | behindQuote
deriving DecidableEq

/-- The records read so far, and the parts of the record that is being read,
each in reverse. -/
structure Reader where
  place : Place := .betweenRecords
  field : Field := []
  fields : Record := []
  records : Array Record := #[]

namespace Reader

/-- Adds a byte to the field. -/
def keep (r : Reader) (place : Place) (byte : UInt8) : Reader :=
  { r with place, field := byte :: r.field }

/-- Ends the field. -/
def endField (r : Reader) : Reader :=
  { r with place := .fieldStart, field := [], fields := r.field.reverse :: r.fields }

/-- Ends the field and the record. -/
def endRecord (r : Reader) : Reader :=
  let r := r.endField
  { records := r.records.push r.fields.reverse }

/-- A byte outside quotes. -/
def plain (r : Reader) (byte : UInt8) : Reader :=
  if byte = comma then r.endField
  else if isLineEndByte byte then r.endRecord
  else r.keep .plainField byte

/-- The first byte of a field. -/
def opening (r : Reader) (byte : UInt8) : Reader :=
  if byte = quote then { r with place := .quotedField } else r.plain byte

/-- Takes one byte. -/
def step (r : Reader) (byte : UInt8) : Reader :=
  match r.place with
  | .betweenRecords => if isLineEndByte byte then r else r.opening byte
  | .fieldStart => r.opening byte
  | .plainField => r.plain byte
  | .quotedField =>
    if byte = quote then { r with place := .behindQuote } else r.keep .quotedField byte
  | .behindQuote => if byte = quote then r.keep .quotedField byte else r.plain byte

/-- Ends the text, and with it a record that has started. -/
def finish (r : Reader) : Reader :=
  match r.place with
  | .betweenRecords => r
  | _ => r.endRecord

end Reader

/-! ## Sheets -/

/-- Some bytes without a byte order mark at their start. -/
def dropMark : List UInt8 → List UInt8
  | 0xEF :: 0xBB :: 0xBF :: bytes => bytes
  | bytes => bytes

/-- Delimited records with their header. -/
structure Sheet where
  /-- The first record, which names the columns; empty if there is none. -/
  header : Record
  /-- The records below the header. -/
  rows : List Record
  /-- Whether there are bytes, but no record in them. -/
  isBlank : Bool

/-- The sheet of some bytes. -/
def Sheet.ofBytes (bytes : List UInt8) : Sheet :=
  let bytes := dropMark bytes
  let reader := (bytes.foldl Reader.step {}).finish
  match reader.records.toList with
  | [] => { header := [], rows := [], isBlank := !bytes.isEmpty }
  | header :: rows => { header, rows, isBlank := false }

end Delimited

end StripePruning
