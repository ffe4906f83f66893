import Mathlib.Algebra.Group.Action.Defs
import Mathlib.Algebra.Order.BigOperators.Group.List
import Mathlib.Algebra.Order.Group.Nat
import StripePruning.Proofs.Evaluation.Denials
import StripePruning.Proofs.Number.Rates

/-!
# What an evaluation counts

An evaluation that succeeds has compared, for every value, the stripes that are
expected with those that the index names.

* `expected` and `named` are these two sets of stripes.
* `Tallied` says how the counts before and after some lookups are related.
  `countLookup_tallied` is one lookup, and `foldlM_countLookup_tallied` the run.
* `sum_card_named` balances the counts: what is named is what is expected and the
  false positives.
* `Effectiveness.falsePositiveRate_mem` bounds the rate, as the double that it is.
* `evaluateFrom_counts` puts this together for a test case.
-/

namespace StripePruning

/-- A false positive rate lies between zero and one, if no more stripes are false positives than
true negatives and the counts have 64 bits. -/
theorem Effectiveness.falsePositiveRate_mem {counts : Effectiveness}
    (hle : counts.falsePositives ≤ counts.trueNegatives) (hlt : counts.trueNegatives < 2 ^ 64) :
    0.0 ≤ counts.falsePositiveRate ∧ counts.falsePositiveRate ≤ 1.0 := by
  rw [falsePositiveRate]
  split
  · decide +kernel
  · exact Double.toFloat_div_toFloat_mem hle (Nat.pos_of_ne_zero ‹_›) hlt

namespace Evaluator

variable {ι : Type} [StripeIndex ι] {c : Column} {stripeSize lookups : Nat} {e : Evaluator}
  {index : ι}

/-! ## Expected and named stripes -/

/-- The stripes that an evaluator expects for a value. -/
def expected (e : Evaluator) (value : Int64) : Finset Nat :=
  (StripeIndex.qualifyingStripes e.truth value e.stripes).positions

/-- The stripes that an index names for a value. -/
def named (e : Evaluator) (index : ι) (value : Int64) : Finset Nat :=
  (StripeIndex.qualifyingStripes index value e.stripes).positions

/-- The expected stripes are those that hold the value. -/
theorem Judges.mem_expected (he : e.Judges c stripeSize) {value : Int64} {id : Nat} :
    id ∈ e.expected value ↔ c.stripeContains stripeSize id value = true := by
  rw [expected, he.expected_eq, Bitmap.mem_positions, Bitmap.get_ofFn, Bool.and_eq_true,
    decide_eq_true_eq, he.stripes_eq]
  exact ⟨And.right, fun hheld =>
    ⟨Column.lt_numStripes_of_stripeContains he.stripeSize_pos hheld, hheld⟩⟩

/-- There are no more expected stripes than stripes. -/
theorem Judges.card_expected_le (he : e.Judges c stripeSize) (value : Int64) :
    (e.expected value).card ≤ e.stripes := by
  rw [expected, he.expected_eq]
  exact Bitmap.card_positions_le _

/-! ## The counts of some lookups -/

/-- How the lookups of some values change the counts: every expected stripe is named, the stripes
that are not expected are added to the true negatives, and the stripes that are named without
being expected to the false positives. -/
structure Tallied (e : Evaluator) (index : ι) (values : List Int64)
    (before after : Effectiveness) : Prop where
  subset : ∀ value, value ∈ values → e.expected value ⊆ e.named index value
  trueNegatives_eq : after.trueNegatives = before.trueNegatives
    + (values.map fun value => e.stripes - (e.expected value).card).sum
  falsePositives_eq : after.falsePositives = before.falsePositives
    + (values.map fun value => (e.named index value \ e.expected value).card).sum
  lookups_eq : after.lookups = before.lookups
  stripes_eq : after.stripes = before.stripes
  testCase_eq : after.testCase = before.testCase

/-- The lookup of a value that succeeds counts this value. -/
theorem countLookup_tallied (he : e.Judges c stripeSize)
    (hindex : StripeIndex.Answers index e.stripes) {counts counts' : Effectiveness}
    {value : Int64} (h : e.countLookup index counts value = .ok counts') :
    Tallied e index [value] counts counts' := by
  -- A stripe that is denied would have ended the lookup.
  have haccepted : ∀ id, ¬ Denies index c stripeSize value id := by
    intro id hid
    obtain ⟨first, least, hfirst⟩ :=
      exists_firstDenial ⟨value, List.mem_singleton_self value, id, hid⟩
    obtain rfl := List.mem_singleton.1 hfirst.mem
    rw [countLookup_of_denied he hindex counts hfirst.denied hfirst.least] at h
    cases h
  have hsound : ∀ id, c.stripeContains stripeSize id value = true →
      (StripeIndex.qualifyingStripes index value e.stripes).get id = true :=
    fun id => he.get_of_accepted haccepted
  rw [countLookup_of_sound e index counts (he.expected_eq value) (hindex.eq_ofFn value)
    hsound] at h
  obtain rfl := Except.ok.inj h
  have hexpected : (Bitmap.ofFn e.stripes fun id => c.stripeContains stripeSize id value).count
      = (e.expected value).card := by
    rw [(Bitmap.wellFormed_ofFn _ _).count_eq_card, expected, he.expected_eq]
  have hsurplus : (Bitmap.ofFn e.stripes fun id =>
      (StripeIndex.qualifyingStripes index value e.stripes).get id &&
        !c.stripeContains stripeSize id value).positions
      = e.named index value \ e.expected value := by
    ext id
    rw [Finset.mem_sdiff, he.mem_expected, named, Bitmap.mem_positions, Bitmap.mem_positions,
      Bitmap.get_ofFn]
    have hlt : (StripeIndex.qualifyingStripes index value e.stripes).get id = true →
        id < e.stripes := by
      intro hnamed
      rw [hindex.eq_ofFn, Bitmap.get_ofFn, Bool.and_eq_true, decide_eq_true_eq] at hnamed
      exact hnamed.1
    simp only [Bool.and_eq_true, decide_eq_true_eq, Bool.not_eq_true', Bool.not_eq_true]
    tauto
  refine ⟨?_, ?_, ?_, rfl, rfl, rfl⟩
  · intro other hother
    obtain rfl := List.mem_singleton.1 hother
    intro id hid
    rw [named, Bitmap.mem_positions]
    exact hsound id (he.mem_expected.1 hid)
  · rw [List.map_singleton, List.sum_singleton, ← hexpected]
  · rw [List.map_singleton, List.sum_singleton, ← hsurplus,
      ← (Bitmap.wellFormed_ofFn _ _).count_eq_card]

theorem Tallied.nil (counts : Effectiveness) : Tallied e index [] counts counts :=
  ⟨fun _ hvalue => absurd hvalue List.not_mem_nil, rfl, rfl, rfl, rfl, rfl⟩

/-- The lookups of some values after that of another one. -/
theorem Tallied.cons {value : Int64} {rest : List Int64} {before middle after : Effectiveness}
    (hvalue : Tallied e index [value] before middle) (hrest : Tallied e index rest middle after) :
    Tallied e index (value :: rest) before after := by
  refine ⟨?_, ?_, ?_, hrest.lookups_eq.trans hvalue.lookups_eq,
    hrest.stripes_eq.trans hvalue.stripes_eq, hrest.testCase_eq.trans hvalue.testCase_eq⟩
  · intro other hother
    rcases List.mem_cons.1 hother with rfl | hother
    · exact hvalue.subset other (List.mem_singleton_self other)
    · exact hrest.subset other hother
  · rw [hrest.trueNegatives_eq, hvalue.trueNegatives_eq, List.map_singleton, List.sum_singleton,
      List.map_cons, List.sum_cons, Nat.add_assoc]
  · rw [hrest.falsePositives_eq, hvalue.falsePositives_eq, List.map_singleton,
      List.sum_singleton, List.map_cons, List.sum_cons, Nat.add_assoc]

/-- The lookups of some values that succeed count these values. -/
theorem foldlM_countLookup_tallied (he : e.Judges c stripeSize)
    (hindex : StripeIndex.Answers index e.stripes) {values : List Int64}
    {before after : Effectiveness}
    (h : values.foldlM (e.countLookup index) before = .ok after) :
    Tallied e index values before after := by
  induction values generalizing before with
  | nil =>
    obtain rfl : before = after := Except.ok.inj h
    exact Tallied.nil before
  | cons value rest ih =>
    rw [List.foldlM_cons] at h
    obtain ⟨middle, hvalue, hrest⟩ := except_bind_eq_ok.1 h
    exact (countLookup_tallied he hindex hvalue).cons (ih hrest)

/-! ## The balance of the counts -/

/-- No more stripes are named than there are. -/
theorem card_named_le (hindex : StripeIndex.Answers index e.stripes) (value : Int64) :
    (e.named index value).card ≤ e.stripes := by
  obtain ⟨-, hlen⟩ := hindex value
  exact hlen ▸ Bitmap.card_positions_le (StripeIndex.qualifyingStripes index value e.stripes)

/-- The stripes that are named are those that are expected and the false positives. -/
theorem card_named {value : Int64} (hsub : e.expected value ⊆ e.named index value) :
    (e.named index value \ e.expected value).card + (e.expected value).card
      = (e.named index value).card :=
  Finset.card_sdiff_add_card_eq_card hsub

/-- The false positives of some lookups are true negatives of theirs. -/
theorem sum_card_sdiff_le (hindex : StripeIndex.Answers index e.stripes) {values : List Int64}
    (hsub : ∀ value, value ∈ values → e.expected value ⊆ e.named index value) :
    (values.map fun value => (e.named index value \ e.expected value).card).sum
      ≤ (values.map fun value => e.stripes - (e.expected value).card).sum := by
  refine List.sum_le_sum fun value hvalue => ?_
  have hnamed := card_named (hsub value hvalue)
  have hle := card_named_le hindex value
  omega

/-- Some lookups have no more true negatives than they check stripes. -/
theorem sum_stripes_sub_le (e : Evaluator) (values : List Int64) :
    (values.map fun value => e.stripes - (e.expected value).card).sum
      ≤ values.length * e.stripes := by
  have hsum := List.sum_le_card_nsmul
    (values.map fun value => e.stripes - (e.expected value).card) e.stripes ?_
  · rwa [List.length_map, smul_eq_mul] at hsum
  · intro n hn
    obtain ⟨value, -, rfl⟩ := List.mem_map.1 hn
    exact Nat.sub_le _ _

/-- Every stripe that some lookups check is a true negative or expected, and every stripe that
they name is expected or a false positive. -/
theorem sum_card_named (he : e.Judges c stripeSize) {values : List Int64}
    (hsub : ∀ value, value ∈ values → e.expected value ⊆ e.named index value) :
    (values.map fun value => (e.named index value).card).sum
        + (values.map fun value => e.stripes - (e.expected value).card).sum
      = values.length * e.stripes
        + (values.map fun value => (e.named index value \ e.expected value).card).sum := by
  induction values with
  | nil => simp
  | cons value rest ih =>
    have hrest := ih fun other hother => hsub other (List.mem_cons_of_mem value hother)
    have hnamed := card_named (hsub value List.mem_cons_self)
    have hexpected := he.card_expected_le value
    simp only [List.map_cons, List.sum_cons, List.length_cons, Nat.add_mul, Nat.one_mul]
    omega

/-- What an evaluation that succeeds has counted, whatever the index was built from.  The values
are those that were drawn.  All stripes that hold one of them are named.  The true negatives are
the stripes that do not hold the value, and the false positives those of them that are named.  So
there are no more false positives than true negatives, and their rate lies between zero and one.
There are no more true negatives than stripes that were checked.  What is not a true negative and
the false positives are the stripes that are named. -/
theorem evaluateFrom_counts (he : build c stripeSize lookups = .ok e)
    (hindex : StripeIndex.Answers index (c.numStripes stripeSize)) {g : Type} [RandomSource g]
    {testCase : TestCase} {source : g} {result : Effectiveness}
    (hresult : e.evaluateFrom source index testCase = .ok result) :
    ∃ values rest, (testCase.draw c lookups).run source = some (values, rest) ∧
      result.testCase = testCase ∧ result.stripes = c.numStripes stripeSize ∧
      result.lookups = values.size ∧
      (∀ value id, id ∈ e.expected value ↔ c.stripeContains stripeSize id value = true) ∧
      (∀ value, (e.expected value).card ≤ c.numStripes stripeSize) ∧
      (∀ value, value ∈ values → e.expected value ⊆ e.named index value) ∧
      result.trueNegatives = (values.toList.map fun value =>
        c.numStripes stripeSize - (e.expected value).card).sum ∧
      result.falsePositives = (values.toList.map fun value =>
        (e.named index value \ e.expected value).card).sum ∧
      result.falsePositives ≤ result.trueNegatives ∧
      (result.trueNegatives < 2 ^ 64 →
        0.0 ≤ result.falsePositiveRate ∧ result.falsePositiveRate ≤ 1.0) ∧
      result.trueNegatives ≤ result.lookups * result.stripes ∧
      result.namedStripes
        = result.lookups * result.stripes - result.trueNegatives + result.falsePositives ∧
      result.namedStripes = (values.toList.map fun value => (e.named index value).card).sum := by
  obtain ⟨hjudges, rfl⟩ := judges_of_build he
  rw [← hjudges.stripes_eq] at hindex ⊢
  rw [evaluateFrom, hjudges.column_eq] at hresult
  cases hdraw : (testCase.draw c e.lookups).run source with
  | none =>
    rw [hdraw] at hresult
    cases hresult
  | some drawn =>
    obtain ⟨values, rest⟩ := drawn
    rw [hdraw] at hresult
    have htallied : Tallied e index values.toList
        { testCase, lookups := values.size, stripes := e.stripes } result :=
      foldlM_countLookup_tallied hjudges hindex hresult
    have hnegatives := htallied.trueNegatives_eq
    have hpositives := htallied.falsePositives_eq
    rw [Nat.zero_add] at hnegatives hpositives
    have hlookups : result.lookups = values.size := htallied.lookups_eq
    have hstripes : result.stripes = e.stripes := htallied.stripes_eq
    have hle : result.falsePositives ≤ result.trueNegatives := by
      rw [hnegatives, hpositives]
      exact sum_card_sdiff_le hindex htallied.subset
    have hchecked : result.trueNegatives ≤ result.lookups * result.stripes := by
      rw [hnegatives, hlookups, hstripes]
      exact sum_stripes_sub_le e values.toList
    have hbalance := sum_card_named hjudges htallied.subset
    rw [← hnegatives, ← hpositives, Array.length_toList, ← hlookups, ← hstripes] at hbalance
    refine ⟨values, rest, rfl, htallied.testCase_eq, hstripes, hlookups,
      fun value id => hjudges.mem_expected, hjudges.card_expected_le, ?_, hnegatives, hpositives,
      hle, Effectiveness.falsePositiveRate_mem hle, hchecked, ?_, ?_⟩
    · exact fun value hvalue => htallied.subset value (Array.mem_toList_iff.2 hvalue)
    · rw [Effectiveness.namedStripes]
      omega
    · rw [Effectiveness.namedStripes]
      omega

/-- Five rows with a null value.  In stripes of two rows, the first one holds 0 and 10. -/
def fiveRows : Column :=
  Column.ofValues "c" #[0, 10, Column.nullValue, 5, 10]

/-- Three stripes, of which the last one is not full, and the lookups of 5, 5, 0 and 10.  The zone
map names the first stripe for 5, so there are two false positives. -/
theorem evaluateFrom_counts_false_positives :
    ∃ e index result, build fiveRows 2 4 = .ok e ∧
      IndexConfig.build .zoneMap fiveRows 2 = .ok index ∧
      e.evaluate index .positiveUniform = .ok result ∧
      (result.lookups, result.trueNegatives, result.falsePositives) = (4, 7, 2) ∧
      (0.0 ≤ result.falsePositiveRate ∧ result.falsePositiveRate ≤ 1.0) ∧
      result.trueNegatives ≤ result.lookups * result.stripes ∧
      result.namedStripes
        = result.lookups * result.stripes - result.trueNegatives + result.falsePositives := by
  have hsize : 0 < 2 := by decide
  obtain ⟨e, he, -, -⟩ := build_ok fiveRows hsize 4
  have hindex : IndexConfig.build .zoneMap fiveRows 2
      = .ok (.zoneMap (ZoneMap.ofChunks (chunks 2 fiveRows.values.toList))) := by
    rw [IndexConfig.build, ZoneMap.build_eq_ok_iff.2 ⟨hsize, rfl⟩]
    rfl
  have hrun : ((build fiveRows 2 4).toOption.bind fun e =>
      (e.evaluate (Index.zoneMap (ZoneMap.ofChunks (chunks 2 fiveRows.values.toList)))
        .positiveUniform).toOption.map
          fun result => (result.lookups, result.trueNegatives, result.falsePositives))
      = some (4, 7, 2) := by
    decide +kernel
  rw [he] at hrun
  obtain ⟨result, hresult, hcounts⟩ := Option.map_eq_some_iff.1 hrun
  cases hevaluate : e.evaluate (Index.zoneMap (ZoneMap.ofChunks (chunks 2 fiveRows.values.toList)))
      .positiveUniform with
  | error error =>
    rw [hevaluate] at hresult
    cases hresult
  | ok counts =>
    rw [hevaluate] at hresult
    obtain rfl := Option.some.inj hresult
    obtain ⟨values, rest, -, -, -, -, -, -, -, -, -, -, hrate, hchecked, hnamed, -⟩ :=
      evaluateFrom_counts he ((Index.built_of_build hindex).answers 3) hevaluate
    have hnegatives : counts.trueNegatives = 7 := congrArg (·.2.1) hcounts
    exact ⟨e, _, counts, he, hindex, hevaluate, hcounts, hrate (by omega), hchecked, hnamed⟩

end Evaluator

end StripePruning
