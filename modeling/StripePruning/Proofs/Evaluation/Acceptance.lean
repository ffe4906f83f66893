import StripePruning.Evaluation.Evaluator
import StripePruning.Proofs.Bitmap.Positions
import StripePruning.Proofs.Index.Soundness
import StripePruning.Proofs.Lookup.Values

/-!
# Evaluations accept every built index

An evaluation ends early if an index denies a value to a stripe that holds it, or
if two bitmaps differ in length.  Neither happens for an index that was built over
the column of the evaluator.

* `build_ok` says what an evaluator knows about its column, and
  `expected_eq` which stripes it expects for a value.
* `countLookup_of_sound` is the lookup of one value in an index that names the
  stripes of the value, and `evaluateOn_ok` the run over all of them.
* `evaluateFrom_ok` puts the values of a test case in their place.
-/

namespace StripePruning

namespace Evaluator

variable {c : Column} {stripeSize : Nat} {config : IndexConfig} {index : Index} {e : Evaluator}

/-! ## What is expected -/

/-- An evaluator of a column cut into stripes. -/
structure Judges (e : Evaluator) (c : Column) (stripeSize : Nat) : Prop where
  column_eq : e.column = c
  stripes_eq : e.stripes = c.numStripes stripeSize
  truth_built : PerValueBitmap.build c stripeSize = .ok e.truth

/-- An evaluator can be built for every stripe size but zero. -/
theorem build_ok (c : Column) (hsize : 0 < stripeSize) (lookups : Nat) :
    ∃ e, build c stripeSize lookups = .ok e ∧ e.Judges c stripeSize ∧ e.lookups = lookups := by
  obtain ⟨truth, htruth, -⟩ := PerValueBitmap.build_records c hsize
  refine ⟨{ column := c, lookups, stripes := c.numStripes stripeSize, truth }, ?_,
    ⟨rfl, rfl, htruth⟩, rfl⟩
  rw [build, htruth]
  rfl

/-- The stripes that are expected for a value are those that hold it. -/
theorem Judges.expected_eq (h : e.Judges c stripeSize) (value : Int64) :
    StripeIndex.qualifyingStripes e.truth value e.stripes
      = Bitmap.ofFn e.stripes fun id => c.stripeContains stripeSize id value :=
  (PerValueBitmap.records_of_build h.truth_built).qualifyingStripes_eq value

/-! ## The lookup of a value -/

/-- The lookup of a value succeeds if the stripes that are named take in those
that are expected.  It counts the stripes that are not expected as true negatives, and
those of them that are named as false positives. -/
theorem countLookup_of_sound {ι : Type} [StripeIndex ι] (e : Evaluator) (index : ι)
    (counts : Effectiveness) {value : Int64} {expected actual : Nat → Bool}
    (hexpected : StripeIndex.qualifyingStripes e.truth value e.stripes
      = Bitmap.ofFn e.stripes expected)
    (hactual : StripeIndex.qualifyingStripes index value e.stripes
      = Bitmap.ofFn e.stripes actual)
    (hsound : ∀ id, expected id = true → actual id = true) :
    e.countLookup index counts value = .ok { counts with
      trueNegatives := counts.trueNegatives + (e.stripes - (Bitmap.ofFn e.stripes expected).count)
      falsePositives := counts.falsePositives
        + (Bitmap.ofFn e.stripes fun id => actual id && !expected id).count
      results := counts.results.add (Bitmap.ofFn e.stripes actual) } := by
  have hmissing : (Bitmap.ofFn e.stripes fun id => expected id && !actual id).first? = none := by
    refine (Bitmap.wellFormed_ofFn _ _).first?_eq_none fun id => ?_
    cases hid : expected id with
    | false => simp [hid]
    | true => simp [hsound id hid]
  rw [countLookup, hexpected, hactual, Bitmap.difference_ofFn, Bitmap.difference_ofFn]
  simp only [bind, Except.bind, pure, Except.pure, hmissing]

/-- The lookup of a value in an index of the column succeeds, unless the value is
null and a row holds it.  The index with a bitmap for every value names no stripe
too many. -/
theorem countLookup_ok_of_built (he : e.Judges c stripeSize)
    (hindex : index.Built c stripeSize config) (counts : Effectiveness) {value : Int64}
    (hvalue : value ∈ c.values → value ≠ Column.nullValue) :
    ∃ counts', e.countLookup index counts value = .ok counts' ∧
      (config = .perValueBitmap → counts'.falsePositives = counts.falsePositives) := by
  have hsize := hindex.stripeSize_pos
  refine ⟨_, countLookup_of_sound e index counts (he.expected_eq value)
    (hindex.qualifyingStripes_eq value e.stripes) fun id hid =>
      hindex.stripeContains_of_ne_null hid
        (hvalue ((Column.exists_stripeContains_iff hsize).1 ⟨id, hid⟩)), fun hconfig => ?_⟩
  subst hconfig
  -- What is named and what is expected agree stripe by stripe, so nothing is left over.
  have hsurplus : (fun id => StripeIndex.stripeContains index id value
      && !c.stripeContains stripeSize id value) = fun _ => false := by
    funext id
    rw [hindex.stripeContains_eq, Bool.and_not_self]
  show counts.falsePositives + (Bitmap.ofFn e.stripes _).count = counts.falsePositives
  rw [hsurplus, ← Bitmap.zeros_eq_ofFn, Bitmap.count_zeros, Nat.add_zero]

/-! ## The lookups of a test case -/

/-- The evaluation over given values succeeds in the same way. -/
theorem evaluateOn_ok (he : e.Judges c stripeSize) (hindex : index.Built c stripeSize config)
    (testCase : TestCase) {values : Array Int64}
    (hvalues : ∀ value, value ∈ values → value ∈ c.values → value ≠ Column.nullValue) :
    ∃ result, e.evaluateOn index testCase values = .ok result ∧
      (config = .perValueBitmap → result.falsePositives = 0) := by
  refine foldlM_ok (fun value hvalue counts hcounts => ?_) fun _ => rfl
  obtain ⟨counts', hcount, hfalse⟩ := countLookup_ok_of_built he hindex counts
    (hvalues value (Array.mem_toList_iff.1 hvalue))
  exact ⟨counts', hcount, fun hconfig => (hfalse hconfig).trans (hcounts hconfig)⟩

/-- A column that comes from given values by reorderings can be evaluated with
every stripe size but zero.  The evaluation accepts every index that can be built
over the column, for every test case and whatever values are drawn: it finds no
stripe that the index misses, and no bitmap of another length.  For the index with
a bitmap for every value it counts no false positive. -/
theorem evaluateFrom_ok (hc : c.Reachable) (hsize : 0 < stripeSize) (lookups : Nat) :
    ∃ e, build c stripeSize lookups = .ok e ∧
      ∀ config index, IndexConfig.build config c stripeSize = .ok index →
        ∀ {g : Type} [RandomSource g] (testCase : TestCase) (source : g) values rest,
          (testCase.draw c lookups).run source = some (values, rest) →
          ∃ result, e.evaluateFrom source index testCase = .ok result ∧
            (∀ p, index = .perValueBitmap p → result.falsePositives = 0) := by
  obtain ⟨e, hbuild, he, rfl⟩ := build_ok c hsize lookups
  refine ⟨e, hbuild, fun config index hindex g _ testCase source values rest hdraw => ?_⟩
  have hbuilt := Index.built_of_build hindex
  obtain ⟨result, hresult, hfalse⟩ := evaluateOn_ok he hbuilt testCase
    (TestCase.lookup_ne_null hc testCase e.lookups source values rest hdraw)
  refine ⟨result, ?_, fun p hp => ?_⟩
  · rw [evaluateFrom, he.column_eq, hdraw]
    exact hresult
  · subst hp
    cases hbuilt
    exact hfalse rfl

/-- Three rows with a null value, left over from four: the different values of the
column still include the eight of the row that is gone. -/
def shortened : Column :=
  { Column.ofValues "c" #[7, Column.nullValue, 7, 8] with values := #[Column.nullValue, 7, 7] }

/-- A mixed test case with the stream of the usual seed, on two stripes of which
the last one is not full. -/
theorem evaluateFrom_ok_shortened :
    (Column.ofValues "c" #[7, Column.nullValue, 7, 8]).reorder #[1, 0, 2] = .ok shortened ∧
      ∃ e zones bitmaps counts exact, build shortened 2 4 = .ok e ∧
        IndexConfig.build .zoneMap shortened 2 = .ok zones ∧
        e.evaluate zones (.mixed 0.5) = .ok counts ∧
        IndexConfig.build .perValueBitmap shortened 2 = .ok (.perValueBitmap bitmaps) ∧
        e.evaluate (Index.perValueBitmap bitmaps) (.mixed 0.5) = .ok exact ∧
        exact.falsePositives = 0 := by
  have hreorder : (Column.ofValues "c" #[7, Column.nullValue, 7, 8]).reorder #[1, 0, 2]
      = .ok shortened := by
    simp [Column.reorder, Column.numRows, Column.ofValues, shortened]
  have hsize : 0 < 2 := by decide
  have hzones : IndexConfig.build .zoneMap shortened 2
      = .ok (.zoneMap (ZoneMap.ofChunks (chunks 2 shortened.values.toList))) := by
    rw [IndexConfig.build, ZoneMap.build_eq_ok_iff.2 ⟨hsize, rfl⟩]
    rfl
  obtain ⟨bitmaps, hbuilt, -⟩ := PerValueBitmap.build_records shortened hsize
  have hbitmaps : IndexConfig.build .perValueBitmap shortened 2
      = .ok (.perValueBitmap bitmaps) := by
    rw [IndexConfig.build, hbuilt]
    rfl
  have hdraw : (((TestCase.mixed 0.5).draw shortened 4).run
      (Keystream.ofSeed Batch.standardSeed)).isSome = true := by
    decide +kernel
  obtain ⟨⟨values, rest⟩, hrun⟩ := Option.isSome_iff_exists.1 hdraw
  obtain ⟨e, he, haccepts⟩ := evaluateFrom_ok
    ((Column.Reachable.ofValues "c" #[7, Column.nullValue, 7, 8]).reorder hreorder) hsize 4
  obtain ⟨counts, hcounts, -⟩ := haccepts _ _ hzones (.mixed 0.5) _ values rest hrun
  obtain ⟨exact, hexact, hzero⟩ := haccepts _ _ hbitmaps (.mixed 0.5) _ values rest hrun
  exact ⟨hreorder, e, _, bitmaps, counts, exact, he, hzones, hcounts, hbitmaps, hexact,
    hzero bitmaps rfl⟩

end Evaluator

end StripePruning
