import StripePruning.Evaluation.Effectiveness
import StripePruning.Index.Config
import StripePruning.Lookup.Series
import StripePruning.Workload.Replay

/-!
# Reports

What a run finds out about one index, and the lines in which it is written.
Times and compressed sizes depend on the machine that measures them; in a line
the marks `<t>` and `<z>` stand in their places.
-/

namespace StripePruning

/-- What is measured for one index over one column. -/
structure Report where
  column : String
  stripeSize : Nat
  stripes : Nat
  index : String
  byteSize : Nat
  /-- The means over the bitmaps that the index keeps, if it keeps any. -/
  bitmapStats : Option BitmapStats
  effectiveness : List Effectiveness := []
  lookups : List LookupMeasurement := []
  segments : List Segment := []

/-! ## Lines -/

/-- The mark for a measured time. -/
def timeMark : String := "<t>"

/-- The mark for a compressed size. -/
def sizeMark : String := "<z>"

/-- The line on a column cut into stripes.  A column without rows takes no bytes
once compressed. -/
def Column.reportLine (c : Column) (stripeSize : Nat) : String :=
  let compressed := if c.compressesToNothing stripeSize then "0" else sizeMark
  s!"{c.name}/{stripeSize}: {c.numRows} rows, cardinality {c.cardinality}, " ++
    s!"{compressed} bytes compressed"

/-- The line on the sizes of an index. -/
def Report.sizeLine (r : Report) : String :=
  s!"{r.column}/{r.stripeSize}/{r.index}: {r.byteSize} bytes, {r.stripes} stripes, " ++
    s!"built in {timeMark}, {sizeMark} bytes compressed"

/-- The line on the bitmaps that an index keeps. -/
def BitmapStats.reportLine (s : BitmapStats) : String :=
  s!"  bitmaps: {s.text}"

/-- The line on a test case. -/
def Effectiveness.reportLine (e : Effectiveness) : String :=
  s!"  {e.text}"

/-- The line on a series of lookups. -/
def LookupMeasurement.reportLine (m : LookupMeasurement) : String :=
  s!"  {m.name}: {timeMark} ({m.lookups} lookups)"

/-- The lines on what a replay reports.  A label is written as it is. -/
def ReplayEvent.reportLines : ReplayEvent → List String
  | .label text => [text]
  | .segment s =>
    [s!"avg blk num is:{positional s.meanBlocks}", s!"avg search time is:{timeMark}"]

end StripePruning
