import StripePruning.Bitmap.Stats
import StripePruning.Lookup.TestCase

/-!
# Effectiveness

How well an index prunes, as counted over the lookups of one test case: every
stripe of every lookup either holds the value or not, and the index names it
or not.
-/

namespace StripePruning

/-- The counts of one test case. -/
structure Effectiveness where
  testCase : TestCase
  lookups : Nat
  /-- The stripes of the column. -/
  stripes : Nat
  /-- Stripes that were named without holding the value, over all lookups. -/
  falsePositives : Nat := 0
  /-- Stripes that do not hold the value, over all lookups. -/
  trueNegatives : Nat := 0
  /-- The means over the bitmaps that the index answered. -/
  results : BitmapStats := {}

namespace Effectiveness

/-- The share of the stripes without the value that were named, zero without
such stripes. -/
def falsePositiveRate (e : Effectiveness) : Float :=
  if e.trueNegatives = 0 then 0.0
  else e.falsePositives.toFloat / e.trueNegatives.toFloat

/-- The stripes that were named, over all lookups: all but the true negatives,
and the false positives. -/
def namedStripes (e : Effectiveness) : Nat :=
  e.lookups * e.stripes + e.falsePositives - e.trueNegatives

/-- The mean number of stripes to scan for a lookup, zero without lookups. -/
def scannedPerLookup (e : Effectiveness) : Float :=
  if e.lookups = 0 then 0.0
  else e.namedStripes.toFloat / e.lookups.toFloat

/-- The counts as a text. -/
def text (e : Effectiveness) : String :=
  s!"{e.testCase.label}: false positive rate {fixedPlaces 4 e.falsePositiveRate} " ++
    s!"({e.falsePositives} / {e.trueNegatives} stripes), " ++
    s!"{fixedPlaces 2 e.scannedPerLookup} stripes scanned per lookup, " ++
    s!"result {e.results.text}"

end Effectiveness

end StripePruning
