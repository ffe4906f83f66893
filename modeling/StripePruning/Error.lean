import StripePruning.Files
import StripePruning.Number.Notation

/-!
# Errors

The ways an operation of this library can fail, by cause.  `Error.message` is
the text of each; `Error.isConstruction` tells the failures that concern one
index configuration, which a sweep skips, from those that end it.
-/

namespace StripePruning

/-- What is wrong with the settings of a run. -/
inductive ConfigFault where
  /-- More different values than rows to hold them. -/
  | tooManyUniqueValues (unique rows : Nat)
  /-- Rows without any value to fill them. -/
  | noUniqueValues
  | noStripeSize
  | zeroStripeSize
  | noIndex
  | datasetWithoutColumns (path : String)
  /-- An input file of the named role cannot be opened. -/
  | unopenedInput (role path : String) (failure : OpenFailure)
  | zeroBatchSize

/-- The text of a fault. -/
def ConfigFault.message : ConfigFault → String
  | .tooManyUniqueValues unique rows =>
    s!"cannot draw {unique} unique values into {rows} rows"
  | .noUniqueValues => "at least one unique value is required"
  | .noStripeSize => "at least one stripe size is required"
  | .zeroStripeSize => "stripe sizes must be positive"
  | .noIndex => "at least one index configuration is required"
  | .datasetWithoutColumns path => s!"dataset {path} names no columns"
  | .unopenedInput role path failure => s!"cannot open {role} {path}: {failure.message}"
  | .zeroBatchSize => "lookup batch size must be positive"

/-- Why an index cannot be built with its parameters. -/
inductive ConstructionFault where
  | zeroStripeSize
  | probabilityOutside (probability : Float)

/-- The text of a fault. -/
def ConstructionFault.message : ConstructionFault → String
  | .zeroStripeSize => "stripe size must be positive"
  | .probabilityOutside probability =>
    s!"false positive probability {positional probability} is outside (0, 1)"

/-- Where a column was looked for. -/
inductive ColumnSource where
  | table (name : String)
  | file (path : String)

/-- The text that names a source. -/
def ColumnSource.message : ColumnSource → String
  | .table name => s!"table '{name}'"
  | .file path => path

/-- The failures of this library. -/
inductive Error where
  /-- A position past the last bit of a bitmap. -/
  | outOfRange (position len : Nat)
  /-- Two bitmaps of different lengths. -/
  | lengthMismatch (left right : Nat)
  | invalidSorting (name : String)
  | unknownIndex (text : String)
  | unknownTestCase (name : String)
  | invalidConfig (fault : ConfigFault)
  | columnNotFound (column : String) (source : ColumnSource)
  /-- A column with another number of rows than the first one. -/
  | raggedTable (column : String) (expected actual : Nat)
  | construction (index : String) (fault : ConstructionFault)
  /-- An index that denies a value to a stripe that holds it. -/
  | falseNegative (index : String) (value : Int64) (stripe : Nat)
  /-- A row number past the last row of a column.  It stands for a call that does
  not return: rows are taken by their numbers, and this one stops the program. -/
  | rowOutOfRange (row rows : Nat)
  /-- A step from the greatest 64-bit integer to the next one.  It stands for a call
  that does not return, too. -/
  | overflow
  /-- Input that cannot be opened or is not text. -/
  | unreadableInput
  /-- Delimited text whose records do not fit its header or its types. -/
  | malformedRecords
  /-- More stripes than a set of stored filters can number. -/
  | tooManyStripes (stripes : Nat)
  /-- Settings that are not in the expected form. -/
  | malformedConfig
  /-- A path that is not text, for which a document has no form. -/
  | pathNotText
  /-- A drawing that found no acceptable value. -/
  | unfinishedDraw

namespace Error

/-- The text of an error. -/
def message : Error → String
  | .outOfRange position len =>
    s!"Bit position {position} is out of range for a bitmap of {len} bits"
  | .lengthMismatch left right => s!"Cannot combine bitmaps of {left} and {right} bits"
  | .invalidSorting name => s!"Invalid sorting method: {name}"
  | .unknownIndex text => s!"Unknown index structure: {text}"
  | .unknownTestCase name => s!"Test case {name} does not exist"
  | .invalidConfig fault => s!"Invalid configuration: {fault.message}"
  | .columnNotFound column source => s!"Column '{column}' not found in {source.message}"
  | .raggedTable column expected actual =>
    s!"Column '{column}' has {actual} rows, expected {expected}"
  | .construction index fault => s!"Failed to build {index}: {fault.message}"
  | .falseNegative index value stripe =>
    s!"{index} returned a false negative for value {value} in stripe {stripe}"
  | .rowOutOfRange row rows => s!"Row {row} is out of range for a column of {rows} rows"
  | .overflow => "attempt to add with overflow"
  | .unreadableInput => "IO error: the input cannot be read"
  | .malformedRecords => "The records of the input are malformed"
  | .tooManyStripes stripes => s!"Cannot store filters for {stripes} stripes"
  | .malformedConfig => "Config error: the settings are malformed"
  | .pathNotText => "Config error: path contains invalid UTF-8 characters"
  | .unfinishedDraw => "The random source gave no acceptable value"

/-- Whether an error concerns only the parameters of one index. -/
def isConstruction : Error → Bool
  | .construction _ _ => true
  | _ => false

end Error

end StripePruning
