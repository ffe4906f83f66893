import StripePruning.Lookup.Batch

/-!
# Test cases

A test case is a way to choose the values that an index is judged by.
-/

namespace StripePruning

/-- How lookup values are chosen. -/
inductive TestCase where
  | positiveUniform
  | positiveDistinct
  | positiveZipf
  | negative
  /-- Held values with the given probability. -/
  | mixed (hitRate : Float)

namespace TestCase

/-- The mixed cases from no hits to hits only, in steps of a tenth. -/
def mixedSteps : List TestCase :=
  (List.range 11).map fun tenths => .mixed (tenths.toFloat / 10.0)

/-- The test cases that a name stands for. -/
def ofName (name : String) : Except Error (List TestCase) :=
  match name with
  | "positive_uniform" => .ok [.positiveUniform]
  | "positive_distinct" => .ok [.positiveDistinct]
  | "positive_zipf" => .ok [.positiveZipf]
  | "negative" => .ok [.negative]
  | "mixed" => .ok mixedSteps
  | _ => .error (.unknownTestCase name)

/-- The test cases of several names in order. -/
def ofNames (names : List String) : Except Error (List TestCase) := do
  return (← names.mapM ofName).flatten

/-- The label of a test case. -/
def label : TestCase → String
  | .positiveUniform => "positive_uniform"
  | .positiveDistinct => "positive_distinct"
  | .positiveZipf => "positive_zipf"
  | .negative => "negative"
  | .mixed hitRate => s!"mixed/{fixedPlaces 1 hitRate}"

/-- Draws `size` lookup values for a column. -/
def draw {g : Type} [RandomSource g] (testCase : TestCase) (c : Column) (size : Nat) :
    Draw g (Array Int64) :=
  match testCase with
  | .positiveUniform => Batch.positiveUniform c size
  | .positiveDistinct => Batch.positiveDistinct c size
  | .positiveZipf => Batch.positiveZipf c size
  | .negative => Batch.negative c size
  | .mixed hitRate => Batch.mixed c hitRate size

/-- The lookup values of a test case, the same for every run. -/
def lookupValues (testCase : TestCase) (c : Column) (size : Nat) : Except Error (Array Int64) :=
  Batch.seeded Batch.standardSeed (testCase.draw c size)

end TestCase

end StripePruning
