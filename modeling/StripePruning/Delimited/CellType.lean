import StripePruning.Number.Reading
import StripePruning.Text.DecimalDigit
import StripePruning.Text.Shape

/-!
# Types of cells

The type of a column is inferred from the form of its cells.  A form is
recognised with the decimal digits of all scripts; `CellType.ofCell` gives the
type of one cell and `CellType.ofCells` the narrowest type that covers several
cells.
-/

namespace StripePruning

namespace Delimited

/-- What the cells of a column are read as. -/
inductive CellType where
  | boolean
  | integer
  | decimal
  | date
  /-- A point in time, counted in units of `10 ^ -places` seconds. -/
  | timestamp (places : Nat)
  | text
deriving DecidableEq

/-! ## Forms -/

/-- A letter in lower case.  The long s is a form of the letter s. -/
def foldLetter (c : Char) : Char :=
  if c = 'ſ' then 's' else c.toLower

/-- A text without a minus sign at its start. -/
def dropMinus : List Char → List Char
  | '-' :: text => text
  | text => text

/-- A text without a sign at its start. -/
def dropSign : List Char → List Char
  | '+' :: text => text
  | text => dropMinus text

/-- Whether a text consists of one or more digits. -/
def isDigits (text : List Char) : Bool :=
  !text.isEmpty && text.all isDecimalDigit

/-- Whether a text is a truth value, in any case. -/
def isBooleanForm (text : List Char) : Bool :=
  let word := text.map foldLetter
  word == "true".toList || word == "false".toList

/-- Whether a text is a whole number. -/
def isIntegerForm (text : List Char) : Bool :=
  isDigits (dropMinus text)

/-- Whether a text is the exponent part of a decimal. -/
def isExponentForm : List Char → Bool
  | [] => false
  | c :: text => (c = 'e' || c = 'E') && isDigits (dropSign text)

/-- Whether a text is a decimal with a point, an exponent or both. -/
def isDecimalForm (text : List Char) : Bool :=
  let text := dropMinus text
  let whole := text.takeWhile isDecimalDigit
  match text.dropWhile isDecimalDigit with
  | '.' :: rest =>
    let fraction := rest.takeWhile isDecimalDigit
    let exponent := rest.dropWhile isDecimalDigit
    !(whole.isEmpty && fraction.isEmpty) && (exponent.isEmpty || isExponentForm exponent)
  | rest => !whole.isEmpty && isExponentForm rest

/-- Whether a text is the name of a number that is not finite. -/
def isSpecialForm (text : List Char) : Bool :=
  ["NaN", "nan", "inf", "-inf"].contains (String.ofList text)

/-- Whether a text may stand behind a time: nothing, or anything on the same
line that does not go on with a digit. -/
def isZoneForm : List Char → Bool
  | [] => true
  | c :: text => !isDecimalDigit c && text.all (· ≠ '\n')

/-- What follows the date, the separator and the time of a timestamp. -/
def afterTime? (text : List Char) : Option (List Char) := do
  match ← afterShape? isDecimalDigit dateShape text with
  | 'T' :: rest => afterShape? isDecimalDigit timeShape rest
  | ' ' :: rest => afterShape? isDecimalDigit timeShape rest
  | _ => none

/-- The least of 3, 6 and 9 places that holds some digits after a point. -/
def placesFor? (digits : Nat) : Option Nat :=
  [3, 6, 9].find? fun places => 0 < digits && digits ≤ places

/-- The places of the seconds of a timestamp. -/
def timestampPlaces? (text : List Char) : Option Nat := do
  match ← afterTime? text with
  | '.' :: rest =>
    let zone := rest.dropWhile isDecimalDigit
    if isZoneForm zone then placesFor? (rest.takeWhile isDecimalDigit).length else none
  | zone => if isZoneForm zone then some 0 else none

/-! ## Types -/

namespace CellType

/-- The type of whole numbers: those that do not fit 64 bits are text.  Only
long ones are tested. -/
def ofInteger (cell : String) : CellType :=
  if 19 ≤ cell.utf8ByteSize ∧ readInt64? cell.toList = none then .text else .integer

/-- The type that the form of a cell shows. -/
def ofCell (cell : String) : CellType :=
  let text := cell.toList
  if isBooleanForm text then .boolean
  else if isIntegerForm text then ofInteger cell
  else if isDecimalForm text then .decimal
  else if hasShape isDecimalDigit dateShape text then .date
  else
    match timestampPlaces? text with
    | some places => .timestamp places
    | none => if isSpecialForm text then .decimal else .text

/-- The narrowest type that covers two types: whole numbers are decimals, dates
are timestamps, and timestamps take the finer unit.  All others have only text
in common. -/
def join (a b : CellType) : CellType :=
  match a, b with
  | .integer, .decimal => .decimal
  | .decimal, .integer => .decimal
  | .date, .timestamp places => .timestamp places
  | .timestamp places, .date => .timestamp places
  | .timestamp p, .timestamp q => .timestamp (max p q)
  | _, _ => if a = b then a else .text

/-- The type so far widened to take in one more cell.  An empty cell fits every
type. -/
def widen (type : Option CellType) (cell : String) : Option CellType :=
  if cell.isEmpty then type
  else
    match type with
    | some type => some (type.join (ofCell cell))
    | none => some (ofCell cell)

/-- The type of some cells; there is none if all of them are empty. -/
def ofCells (cells : List String) : Option CellType :=
  cells.foldl widen none

end CellType

end Delimited

end StripePruning
