import Mathlib.Data.Nat.Find
import StripePruning.Proofs.Evaluation.Acceptance

/-!
# Evaluations find the first denial

An index may have been built over another column or with another stripe size, or
it may simply be wrong.  An evaluation ends with the first value that such an index
denies to a stripe that holds it, and it ends for no other reason.

* `Denies` says that the index leaves out a stripe with the value, and `FirstDenial`
  which denial comes first.
* `countLookup_of_denied` is the lookup of one value that is denied, and
  `countLookup_of_accepted` of one that is not.
* `evaluateOn_of_firstDenial` and `evaluateOn_of_accepted` are the runs over all
  values, and `evaluateFrom_eq_error_iff` says when an evaluation fails and with what.
-/

namespace StripePruning

variable {ι : Type} [StripeIndex ι]

/-- Every answer of an index for `n` stripes is a bitmap of `n` bits. -/
def StripeIndex.Answers (index : ι) (n : Nat) : Prop :=
  ∀ value, (StripeIndex.qualifyingStripes index value n).WellFormed ∧
    (StripeIndex.qualifyingStripes index value n).len = n

/-- An answer is given by its bits. -/
theorem StripeIndex.Answers.eq_ofFn {index : ι} {n : Nat} (h : StripeIndex.Answers index n)
    (value : Int64) :
    StripeIndex.qualifyingStripes index value n
      = Bitmap.ofFn n (StripeIndex.qualifyingStripes index value n).get := by
  obtain ⟨hwf, hlen⟩ := h value
  have heq := hwf.eq_ofFn
  rwa [hlen] at heq

/-- The indexes of all families answer with bitmaps of as many bits as asked for. -/
theorem Index.Built.answers {c : Column} {stripeSize : Nat} {config : IndexConfig} {index : Index}
    (h : index.Built c stripeSize config) (n : Nat) : StripeIndex.Answers index n := by
  intro value
  rw [h.qualifyingStripes_eq]
  exact ⟨Bitmap.wellFormed_ofFn n _, Bitmap.len_ofFn n _⟩

namespace Evaluator

variable {c : Column} {stripeSize lookups : Nat} {e : Evaluator} {index : ι}

/-! ## Denials -/

/-- A stripe of a column holds a value, and an index does not name the stripe for it. -/
structure Denies (index : ι) (c : Column) (stripeSize : Nat) (value : Int64) (id : Nat) : Prop where
  lt_numStripes : id < c.numStripes stripeSize
  held : c.stripeContains stripeSize id value = true
  unnamed : (StripeIndex.qualifyingStripes index value (c.numStripes stripeSize)).get id = false

/-- The first value of a list that an index denies to some stripe, and the first such stripe. -/
structure FirstDenial (index : ι) (c : Column) (stripeSize : Nat) (values : List Int64)
    (value : Int64) (id : Nat) : Prop where
  first : ∃ before after, values = before ++ value :: after ∧
    ∀ other, other ∈ before → ∀ id, ¬ Denies index c stripeSize other id
  denied : Denies index c stripeSize value id
  least : ∀ lower, lower < id → ¬ Denies index c stripeSize value lower

theorem FirstDenial.mem {values : List Int64} {value : Int64} {id : Nat}
    (h : FirstDenial index c stripeSize values value id) : value ∈ values := by
  obtain ⟨before, after, rfl, -⟩ := h.first
  simp

/-- If some value is denied to some stripe, there is a first such value with a first such
stripe. -/
theorem exists_firstDenial {values : List Int64}
    (h : ∃ value, value ∈ values ∧ ∃ id, Denies index c stripeSize value id) :
    ∃ value id, FirstDenial index c stripeSize values value id := by
  induction values with
  | nil =>
    obtain ⟨value, hvalue, -⟩ := h
    exact absurd hvalue List.not_mem_nil
  | cons head rest ih =>
    -- Either the head is the first denied value, or no value before the one in the rest is denied.
    by_cases hhead : ∃ id, Denies index c stripeSize head id
    · classical
      refine ⟨head, Nat.find hhead, ⟨[], rest, rfl, ?_⟩, Nat.find_spec hhead, ?_⟩
      · intro other hother
        exact absurd hother List.not_mem_nil
      · intro lower hlower
        exact Nat.find_min hhead hlower
    · obtain ⟨value, hvalue, hdenied⟩ := h
      have hrest : value ∈ rest := by
        rcases List.mem_cons.1 hvalue with rfl | hrest
        · exact absurd hdenied hhead
        · exact hrest
      obtain ⟨first, id, ⟨before, after, rfl, hbefore⟩, hfirst, hleast⟩ :=
        ih ⟨value, hrest, hdenied⟩
      refine ⟨first, id, ⟨head :: before, after, rfl, ?_⟩, hfirst, hleast⟩
      intro other hother
      rcases List.mem_cons.1 hother with rfl | hother
      · exact fun id hid => hhead ⟨id, hid⟩
      · exact hbefore other hother

/-! ## The lookup of a value -/

/-- What an evaluator that was built knows. -/
theorem judges_of_build (h : build c stripeSize lookups = .ok e) :
    e.Judges c stripeSize ∧ e.lookups = lookups := by
  obtain ⟨truth, htruth, he⟩ := except_bind_eq_ok.1 h
  obtain rfl := Except.ok.inj he
  exact ⟨⟨rfl, rfl, htruth⟩, rfl⟩

theorem Judges.stripeSize_pos (he : e.Judges c stripeSize) : 0 < stripeSize :=
  PerValueBitmap.stripeSize_pos_of_build he.truth_built

/-- An expected stripe that is not named is a stripe that the value is denied to. -/
theorem Judges.denies_iff (he : e.Judges c stripeSize) {value : Int64} {id : Nat} :
    Denies index c stripeSize value id ↔ id < e.stripes ∧
      c.stripeContains stripeSize id value = true ∧
      (StripeIndex.qualifyingStripes index value e.stripes).get id = false := by
  rw [he.stripes_eq]
  exact ⟨fun h => ⟨h.lt_numStripes, h.held, h.unnamed⟩, fun h => ⟨h.1, h.2.1, h.2.2⟩⟩

/-- The lookup of a denied value fails with the first stripe that it is denied to. -/
theorem countLookup_of_denied (he : e.Judges c stripeSize)
    (hindex : StripeIndex.Answers index e.stripes) (counts : Effectiveness) {value : Int64}
    {id : Nat} (hdenied : Denies index c stripeSize value id)
    (hleast : ∀ lower, lower < id → ¬ Denies index c stripeSize value lower) :
    e.countLookup index counts value
      = .error (.falseNegative (StripeIndex.name index) value id) := by
  have hmissing : (Bitmap.ofFn e.stripes fun id => c.stripeContains stripeSize id value &&
      !(StripeIndex.qualifyingStripes index value e.stripes).get id).first? = some id := by
    apply (Bitmap.wellFormed_ofFn _ _).first?_eq_some
    · obtain ⟨hlt, hheld, hunnamed⟩ := he.denies_iff.1 hdenied
      simp [hlt, hheld, hunnamed]
    · intro lower hlower
      have hnot := hleast lower hlower
      rw [he.denies_iff] at hnot
      simpa using hnot
  rw [countLookup, he.expected_eq, hindex.eq_ofFn, Bitmap.difference_ofFn]
  simp only [bind, Except.bind, hmissing, throw, throwThe, MonadExceptOf.throw]

/-- A value that is denied to no stripe is named for all stripes that hold it. -/
theorem Judges.get_of_accepted (he : e.Judges c stripeSize) {value : Int64}
    (hnone : ∀ id, ¬ Denies index c stripeSize value id) {id : Nat}
    (hheld : c.stripeContains stripeSize id value = true) :
    (StripeIndex.qualifyingStripes index value e.stripes).get id = true := by
  have hlt := Column.lt_numStripes_of_stripeContains he.stripeSize_pos hheld
  rw [← he.stripes_eq] at hlt
  rw [← Bool.not_eq_false]
  exact fun hunnamed => hnone id (he.denies_iff.2 ⟨hlt, hheld, hunnamed⟩)

/-- The lookup of a value that is denied to no stripe succeeds. -/
theorem countLookup_of_accepted (he : e.Judges c stripeSize)
    (hindex : StripeIndex.Answers index e.stripes) (counts : Effectiveness) {value : Int64}
    (hnone : ∀ id, ¬ Denies index c stripeSize value id) :
    ∃ counts', e.countLookup index counts value = .ok counts' :=
  ⟨_, countLookup_of_sound e index counts (he.expected_eq value) (hindex.eq_ofFn value)
    fun _ hheld => he.get_of_accepted hnone hheld⟩

/-! ## The lookups of a test case -/

/-- The lookups of values that are denied to no stripe succeed. -/
theorem foldlM_countLookup_of_accepted (he : e.Judges c stripeSize)
    (hindex : StripeIndex.Answers index e.stripes) {values : List Int64}
    (hnone : ∀ value, value ∈ values → ∀ id, ¬ Denies index c stripeSize value id)
    (counts : Effectiveness) :
    ∃ counts', values.foldlM (e.countLookup index) counts = .ok counts' := by
  have hstep : ∀ value, value ∈ values → ∀ counts, True →
      ∃ counts', e.countLookup index counts value = .ok counts' ∧ True := by
    intro value hvalue counts _
    obtain ⟨counts', hcount⟩ := countLookup_of_accepted he hindex counts (hnone value hvalue)
    exact ⟨counts', hcount, trivial⟩
  obtain ⟨counts', hrun, -⟩ := foldlM_ok hstep trivial
  exact ⟨counts', hrun⟩

/-- The evaluation over given values fails with the first denial among them. -/
theorem evaluateOn_of_firstDenial (he : e.Judges c stripeSize)
    (hindex : StripeIndex.Answers index e.stripes) (testCase : TestCase) {values : Array Int64}
    {value : Int64} {id : Nat} (h : FirstDenial index c stripeSize values.toList value id) :
    e.evaluateOn index testCase values
      = .error (.falseNegative (StripeIndex.name index) value id) := by
  obtain ⟨before, after, hvalues, hbefore⟩ := h.first
  rw [evaluateOn, hvalues, List.foldlM_append]
  obtain ⟨counts, hcounts⟩ := foldlM_countLookup_of_accepted he hindex hbefore _
  rw [hcounts]
  show (value :: after).foldlM (e.countLookup index) counts = _
  rw [List.foldlM_cons, countLookup_of_denied he hindex counts h.denied h.least]
  rfl

/-- The evaluation over values that are denied to no stripe succeeds. -/
theorem evaluateOn_of_accepted (he : e.Judges c stripeSize)
    (hindex : StripeIndex.Answers index e.stripes) (testCase : TestCase) {values : Array Int64}
    (hnone : ∀ value, value ∈ values.toList → ∀ id, ¬ Denies index c stripeSize value id) :
    ∃ result, e.evaluateOn index testCase values = .ok result :=
  foldlM_countLookup_of_accepted he hindex hnone _

/-- An evaluation over given values fails if and only if the index denies one of them to a
stripe that holds it, and then with the first denial. -/
theorem evaluateOn_eq_error_iff (he : e.Judges c stripeSize)
    (hindex : StripeIndex.Answers index e.stripes) (testCase : TestCase) {values : Array Int64}
    {error : Error} :
    e.evaluateOn index testCase values = .error error ↔
      ∃ value id, FirstDenial index c stripeSize values.toList value id ∧
        error = .falseNegative (StripeIndex.name index) value id := by
  constructor
  · intro herror
    by_cases hdenied : ∃ value, value ∈ values.toList ∧ ∃ id, Denies index c stripeSize value id
    · obtain ⟨value, id, hfirst⟩ := exists_firstDenial hdenied
      rw [evaluateOn_of_firstDenial he hindex testCase hfirst] at herror
      exact ⟨value, id, hfirst, (Except.error.inj herror).symm⟩
    · obtain ⟨result, hresult⟩ := evaluateOn_of_accepted he hindex testCase
        fun value hvalue id hid => hdenied ⟨value, hvalue, id, hid⟩
      rw [hresult] at herror
      cases herror
  · rintro ⟨value, id, hfirst, rfl⟩
    exact evaluateOn_of_firstDenial he hindex testCase hfirst

/-- The evaluation of an index, whatever it was built from, reports a false negative if and
only if one of the drawn values is denied to a stripe of the column that holds it.  It then
reports the first such value in the order in which they were drawn, the first stripe that this
value is denied to, and the name of the index.  It fails with nothing else. -/
theorem evaluateFrom_eq_error_iff (he : build c stripeSize lookups = .ok e)
    (hindex : StripeIndex.Answers index (c.numStripes stripeSize)) {g : Type} [RandomSource g]
    {testCase : TestCase} {source rest : g} {values : Array Int64}
    (hdraw : (testCase.draw c lookups).run source = some (values, rest)) :
    ((∃ name value id, e.evaluateFrom source index testCase
        = .error (.falseNegative name value id)) ↔
      ∃ value, value ∈ values ∧ ∃ id, Denies index c stripeSize value id) ∧
    ∀ error, e.evaluateFrom source index testCase = .error error ↔
      ∃ value id, FirstDenial index c stripeSize values.toList value id ∧
        error = .falseNegative (StripeIndex.name index) value id := by
  obtain ⟨hjudges, rfl⟩ := judges_of_build he
  rw [← hjudges.stripes_eq] at hindex
  have hrun : e.evaluateFrom source index testCase = e.evaluateOn index testCase values := by
    rw [evaluateFrom, hjudges.column_eq, hdraw]
  have herror : ∀ error, e.evaluateFrom source index testCase = .error error ↔
      ∃ value id, FirstDenial index c stripeSize values.toList value id ∧
        error = .falseNegative (StripeIndex.name index) value id := by
    intro error
    rw [hrun]
    exact evaluateOn_eq_error_iff hjudges hindex testCase
  refine ⟨⟨?_, ?_⟩, herror⟩
  · rintro ⟨name, value, id, hfails⟩
    obtain ⟨value, id, hfirst, -⟩ := (herror _).1 hfails
    exact ⟨value, Array.mem_toList_iff.1 hfirst.mem, id, hfirst.denied⟩
  · rintro ⟨value, hvalue, hdenied⟩
    obtain ⟨value, id, hfirst⟩ :=
      exists_firstDenial ⟨value, Array.mem_toList_iff.2 hvalue, hdenied⟩
    exact ⟨_, value, id, (herror _).2 ⟨value, id, hfirst, rfl⟩⟩

/-- Five stripes of one row, of which two hold 4 and two hold 8, and a zone map that was built
over another column with fewer stripes.  The looked up values are 4, 4, 4 and 8.  The zone map
names both stripes of 4 and none of 8. -/
theorem evaluateFrom_eq_error_iff_other_column :
    ∃ e, build (Column.ofValues "c" #[4, 8, 4, 8, Column.nullValue]) 1 4 = .ok e ∧
      ∃ zones, ZoneMap.build (Column.ofValues "other" #[4, 9, 4]) 1 = .ok zones ∧
        StripeIndex.Answers zones 5 ∧
        e.evaluate zones .positiveUniform = .error (.falseNegative "ZoneMap" 8 1) := by
  obtain ⟨e, he, -, -⟩ :=
    build_ok (Column.ofValues "c" #[4, 8, 4, 8, Column.nullValue]) (by decide : 0 < 1) 4
  have hanswers : StripeIndex.Answers (ZoneMap.ofChunks (chunks 1 [4, 9, 4])) 5 :=
    fun value => ⟨Bitmap.wellFormed_ofFn _ _, Bitmap.len_ofFn _ _⟩
  have hdraw : ((TestCase.positiveUniform.draw (Column.ofValues "c" #[4, 8, 4, 8, Column.nullValue])
      4).run (Keystream.ofSeed Batch.standardSeed)).map (·.1) = some #[4, 4, 4, 8] := by
    decide +kernel
  obtain ⟨⟨values, rest⟩, hrun, rfl⟩ := Option.map_eq_some_iff.1 hdraw
  have hfour : ∀ id, id < 5 →
      ¬ ((Column.ofValues "c" #[4, 8, 4, 8, Column.nullValue]).stripeContains 1 id 4 = true ∧
        (StripeIndex.qualifyingStripes (ZoneMap.ofChunks (chunks 1 [4, 9, 4])) 4 5).get id
          = false) := by
    decide +kernel
  refine ⟨e, he, _, ZoneMap.build_eq_ok_iff.2 ⟨by decide, rfl⟩, hanswers, ?_⟩
  refine ((evaluateFrom_eq_error_iff he hanswers hrun).2 _).2 ⟨8, 1, ⟨?_, ?_, ?_⟩, rfl⟩
  · refine ⟨[4, 4, 4], [], rfl, fun other hother id hdenies => ?_⟩
    obtain rfl : other = 4 := by simpa using hother
    exact hfour id hdenies.lt_numStripes ⟨hdenies.held, hdenies.unnamed⟩
  · exact ⟨by decide, by decide +kernel, by decide +kernel⟩
  · intro lower hlower hdenies
    obtain rfl : lower = 0 := by omega
    exact absurd hdenies.held (by decide +kernel)

end Evaluator

end StripePruning
