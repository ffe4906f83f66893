import StripePruning.Delimited.Load
import StripePruning.Evaluation.Evaluator
import StripePruning.Settings.Basic
import StripePruning.Sweep.Logged
import StripePruning.Sweep.Report
import StripePruning.Table.Uniform

/-!
# Runs

A run compares indexes: for every column of every table and for every stripe
size it builds each configured index and measures it.  An index that cannot be
built with its parameters is left out; every other failure ends the run.  Each
timed series has a stopwatch of its own.
-/

namespace StripePruning

namespace Sweep

/-! ## Tables -/

/-- Where a table comes from. -/
inductive Source where
  | synthetic (rows uniqueValues : Nat)
  | file (dataset : Dataset)

namespace Source

/-- The sources of a run: its datasets, or a synthetic column if it has none. -/
def ofSettings (s : Settings) : List Source :=
  if s.datasets.isEmpty then [.synthetic s.rows s.uniqueValues] else s.datasets.map .file

/-- The table of a source. -/
def load (files : Files) : Source → Except Error Table
  | .synthetic rows uniqueValues => Uniform.table rows uniqueValues
  | .file dataset => Delimited.load files dataset.path dataset.columns

end Source

/-! ## One index -/

/-- A batch of lookup values and the kind of series it is for. -/
abbrev KindBatch := LookupKind × Array Int64

/-- What all indexes over a column and a stripe size are measured with. -/
structure Bench where
  column : Column
  stripeSize : Nat
  /-- The truth to compare answers with, if there are test cases. -/
  evaluator : Option Evaluator
  testCases : List TestCase
  batches : List KindBatch
  /-- The least time of a timed series. -/
  least : Duration
  workload : Option RawText

namespace Bench

/-- The number of stripes of the column. -/
def stripes (b : Bench) : Nat :=
  b.column.numStripes b.stripeSize

/-- The counts of one test case. -/
def evaluate (index : Index) (evaluator : Evaluator) (testCase : TestCase) :
    Logged Effectiveness := do
  let counts ← evaluator.evaluate index testCase
  Logged.write [counts.reportLine]
  return counts

/-- The counts of all test cases. -/
def evaluateAll (b : Bench) (index : Index) : Logged (List Effectiveness) :=
  match b.evaluator with
  | some evaluator => b.testCases.mapM (evaluate index evaluator)
  | none => return []

/-- One series of lookups. -/
def series (b : Bench) (index : Index) (timer : Timer) (batch : KindBatch) :
    Logged LookupMeasurement := do
  let (kind, values) := batch
  let name := kind.seriesName b.column.name b.stripeSize (StripeIndex.name index)
  let measurement := LookupMeasurement.measure timer.watch b.least name values
  Logged.write [measurement.reportLine]
  return measurement

/-- The replay of the workload, if there is one. -/
def replay (files : Files) (b : Bench) (index : Index) : Logged (List Segment) :=
  match b.workload with
  | some path =>
    let outcome := Replay.runFile files index b.stripes path
    { lines := outcome.events.flatMap ReplayEvent.reportLines, result := outcome.result }
  | none => return []

/-- Everything that is measured for a built index. -/
def measure (files : Files) (timer : Timer) (b : Bench) (index : Index) : Logged Report := do
  let report : Report :=
    { column := b.column.name
      stripeSize := b.stripeSize
      stripes := b.stripes
      index := StripeIndex.name index
      byteSize := StripeIndex.byteSize index
      bitmapStats := StripeIndex.bitmapStats? index }
  Logged.write (report.sizeLine :: (report.bitmapStats.map BitmapStats.reportLine).toList)
  let effectiveness ← b.evaluateAll index
  let lookups ← Logged.forEach timer b.batches (b.series index)
  let segments ← b.replay files index
  return { report with effectiveness, lookups, segments }

/-- The report on one configuration; there is none if it cannot be built. -/
def report? (files : Files) (b : Bench) (timer : Timer) (config : IndexConfig) :
    Logged (Option Report) :=
  match config.build b.column b.stripeSize with
  | .ok index => do return some (← b.measure files timer index)
  | .error error => if error.isConstruction then return none else Logged.ofResult (.error error)

end Bench

/-! ## The whole run -/

/-- The batches of the timed series over a column, if they are asked for. -/
def drawBatches (s : Settings) (c : Column) : Except Error (List KindBatch) :=
  if s.benchmarks then
    LookupKind.all.mapM fun kind => do
      return (kind, ← kind.batch c s.batchSize Batch.standardSeed)
  else
    .ok []

/-- The truth about a column, if there are test cases to compare it with. -/
def buildTruth (s : Settings) (testCases : List TestCase) (c : Column) (stripeSize : Nat) :
    Except Error (Option Evaluator) :=
  if testCases.isEmpty then .ok none
  else (Evaluator.build c stripeSize s.lookups).map some

/-- The bench for a column and a stripe size. -/
def Bench.ofSettings (s : Settings) (testCases : List TestCase) (c : Column) (stripeSize : Nat)
    (evaluator : Option Evaluator) (batches : List KindBatch) : Bench :=
  { column := c, stripeSize, evaluator, testCases, batches
    least := s.minBenchTime
    workload := s.workload }

/-- The reports on all indexes over a column and a stripe size. -/
def runStripeSize (files : Files) (s : Settings) (testCases : List TestCase) (c : Column)
    (batches : List KindBatch) (timer : Timer) (stripeSize : Nat) : Logged (List Report) := do
  Logged.write [c.reportLine stripeSize]
  let evaluator ← buildTruth s testCases c stripeSize
  let bench := Bench.ofSettings s testCases c stripeSize evaluator batches
  return (← Logged.forEach timer s.indexes (bench.report? files)).reduceOption

/-- The reports on all indexes over a column. -/
def runColumn (files : Files) (s : Settings) (testCases : List TestCase) (timer : Timer)
    (c : Column) : Logged (List Report) := do
  let batches ← drawBatches s c
  return (← Logged.forEach timer s.stripeSizes
    (runStripeSize files s testCases c batches)).flatten

/-- The reports on all indexes over the columns of a source. -/
def runSource (files : Files) (s : Settings) (sorting : Sorting) (testCases : List TestCase)
    (timer : Timer) (source : Source) : Logged (List Report) := do
  let table ← source.load files
  let table ← table.applySorting sorting
  return (← Logged.forEach timer table.columns (runColumn files s testCases)).flatten

end Sweep

/-- The reports of a run, by source, column, stripe size and index. -/
def Settings.run (files : Files) (timer : Timer) (s : Settings) : Logged (List Report) := do
  let sorting ← s.validate files
  let testCases ← s.parsedTestCases
  return (← Logged.forEach timer (Sweep.Source.ofSettings s)
    (Sweep.runSource files s sorting testCases)).flatten

end StripePruning
