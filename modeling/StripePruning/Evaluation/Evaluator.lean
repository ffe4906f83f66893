import StripePruning.Evaluation.Effectiveness
import StripePruning.Index.PerValueBitmap

/-!
# Evaluating an index

An evaluator knows for a column which stripes really hold a value.  It looks
up the values of a test case in an index, compares the answers, and counts.
An answer that leaves out a stripe with the value ends the evaluation.
-/

namespace StripePruning

/-- The truth about a column that indexes are compared with. -/
structure Evaluator where
  column : Column
  lookups : Nat
  stripes : Nat
  truth : PerValueBitmap

namespace Evaluator

/-- The evaluator of a column cut into stripes. -/
def build (c : Column) (stripeSize lookups : Nat) : Except Error Evaluator := do
  return { column := c
           lookups
           stripes := c.numStripes stripeSize
           truth := ← PerValueBitmap.build c stripeSize }

variable {ι : Type} [StripeIndex ι]

/-- Adds the lookup of one value to the counts. -/
def countLookup (e : Evaluator) (index : ι) (counts : Effectiveness) (value : Int64) :
    Except Error Effectiveness := do
  let expected := StripeIndex.qualifyingStripes e.truth value e.stripes
  let actual := StripeIndex.qualifyingStripes index value e.stripes
  let missing ← expected.difference actual
  if let some stripe := missing.first? then
    throw (.falseNegative (StripeIndex.name index) value stripe)
  let surplus ← actual.difference expected
  return { counts with
    trueNegatives := counts.trueNegatives + (e.stripes - expected.count)
    falsePositives := counts.falsePositives + surplus.count
    results := counts.results.add actual }

/-- The counts of a test case over given lookup values. -/
def evaluateOn (e : Evaluator) (index : ι) (testCase : TestCase) (values : Array Int64) :
    Except Error Effectiveness :=
  values.toList.foldlM (e.countLookup index)
    { testCase, lookups := values.size, stripes := e.stripes }

/-- The counts of a test case whose lookup values come from a source. -/
def evaluateFrom {g : Type} [RandomSource g] (e : Evaluator) (source : g) (index : ι)
    (testCase : TestCase) : Except Error Effectiveness :=
  match (testCase.draw e.column e.lookups).run source with
  | some (values, _) => e.evaluateOn index testCase values
  | none => .error .unfinishedDraw

/-- The counts of a test case, the same for every run. -/
def evaluate (e : Evaluator) (index : ι) (testCase : TestCase) : Except Error Effectiveness :=
  e.evaluateFrom (Keystream.ofSeed Batch.standardSeed) index testCase

end Evaluator

end StripePruning
