import StripePruning.Duration
import StripePruning.Files
import StripePruning.Index.Config
import StripePruning.Lookup.TestCase
import StripePruning.Table.Sorting

/-!
# Settings

What a run measures and on which data.  Every setting has a default, so the
empty settings describe a run over one synthetic column.  `Settings.validate`
finds the faults that show without loading any data.
-/

namespace StripePruning

/-- A delimited file and the columns to use from it. -/
structure Dataset where
  path : RawText
  columns : List String
deriving DecidableEq

/-- The settings of a run. -/
structure Settings where
  /-- The rows of the synthetic column, which is used without datasets. -/
  rows : Nat := 100000
  /-- The different values of the synthetic column. -/
  uniqueValues : Nat := 1000
  datasets : List Dataset := []
  /-- The name of a sorting mode. -/
  sorting : String := Sorting.standard.name
  stripeSizes : List Nat := [8192, 65536]
  indexes : List IndexConfig := IndexConfig.standard
  /-- Names of test cases. -/
  testCases : List String := []
  /-- The lookups of each test case. -/
  lookups : Nat := 1000
  /-- Whether the timed lookup series are run. -/
  benchmarks : Bool := false
  /-- The lookups of one pass of a timed series. -/
  batchSize : Nat := 1000000
  /-- The least time of a timed series in milliseconds. -/
  minBenchMillis : Nat := 500
  /-- A trace to replay against every index. -/
  workload : Option RawText := none
deriving BEq

namespace Settings

/-- The test cases of the run. -/
def parsedTestCases (s : Settings) : Except Error (List TestCase) :=
  TestCase.ofNames s.testCases

/-- The least time of a timed series. -/
def minBenchTime (s : Settings) : Duration :=
  Duration.ofMillis s.minBenchMillis

/-! ## Faults -/

/-- Fails unless an input can be opened. -/
def checkInput (files : Files) (role : String) (path : RawText) : Except Error Unit :=
  match files.entry path with
  | .ok _ => .ok ()
  | .error failure => .error (.invalidConfig (.unopenedInput role path.display failure))

/-- Fails unless there are stripe sizes and indexes to compare. -/
def checkSweep (s : Settings) : Except Error Unit :=
  if s.stripeSizes.isEmpty then .error (.invalidConfig .noStripeSize)
  else if s.stripeSizes.contains 0 then .error (.invalidConfig .zeroStripeSize)
  else if s.indexes.isEmpty then .error (.invalidConfig .noIndex)
  else .ok ()

/-- Fails unless every dataset names columns. -/
def checkColumns (s : Settings) : Except Error Unit :=
  match s.datasets.find? (·.columns.isEmpty) with
  | some dataset => .error (.invalidConfig (.datasetWithoutColumns dataset.path.display))
  | none => .ok ()

/-- Fails if there are timed series without lookups. -/
def checkBatchSize (s : Settings) : Except Error Unit :=
  if s.benchmarks && s.batchSize == 0 then .error (.invalidConfig .zeroBatchSize) else .ok ()

/-- The sorting mode of settings without faults, or the first fault. -/
def validate (files : Files) (s : Settings) : Except Error Sorting := do
  let sorting ← Sorting.ofName s.sorting
  s.checkSweep
  s.checkColumns
  s.datasets.forM fun dataset => checkInput files "dataset" dataset.path
  s.workload.forM (checkInput files "workload")
  s.checkBatchSize
  let _ ← s.parsedTestCases
  return sorting

end Settings

end StripePruning
