import StripePruning.Lookup.TestCase
import StripePruning.Proofs.Column.Rows
import StripePruning.Proofs.Random.Outcomes

/-!
# The values that are looked up

The values of a batch are drawn at random.  This module says what they can be,
for every random source.

* `mem_presentValues` and `mem_presentRows` say what the positive batches choose
  from, and `yields_drawAbsent` what the negative ones give.
* The `yields_` lemmas give the values of each kind of batch.
* `lookup_ne_null` is what the evaluation of an index rests on: a value that is
  looked up is the null value only if the column does not hold it.
-/

namespace StripePruning

namespace Batch

open Draw

variable {g : Type} [RandomSource g]

/-! ## What a batch chooses from -/

/-- The values to choose from are those that the column holds, null apart. -/
theorem mem_presentValues {c : Column} {value : Int64} :
    value ∈ presentValues c ↔ c.contains value = true ∧ value ≠ Column.nullValue := by
  rw [presentValues, List.mem_toArray, List.mem_filter, decide_eq_true_eq,
    Column.distinctValues, Std.TreeSet.mem_toList, Column.contains,
    Std.TreeSet.contains_iff_mem]

/-- The rows to choose from are those with a value. -/
theorem mem_presentRows {c : Column} {value : Int64} :
    value ∈ presentRows c ↔ value ∈ c.values ∧ value ≠ Column.nullValue := by
  rw [presentRows, Array.mem_filter, decide_eq_true_eq]

theorem yields_drawAbsent (c : Column) (limit : Nat := drawLimit) :
    Yields (drawAbsent c limit : Draw g Int64) fun value => c.contains value = false := by
  refine yields_firstOf ?_ limit
  refine (yields_true int64).bind fun value _ => yields_pure fun other hother => ?_
  cases hcontains : c.contains value with
  | true => simp [hcontains] at hother
  | false =>
    rw [hcontains] at hother
    rwa [← Option.some.inj hother]

theorem yields_drawEvenly (values : Array Int64) (size : Nat) :
    Yields (drawEvenly values size : Draw g (Array Int64)) fun drawn =>
      (drawn.size = if values.isEmpty then 0 else size) ∧
        ∀ value, value ∈ drawn → value ∈ values :=
  yields_repeated_unless_isEmpty size yields_oneOf

/-! ## Batches -/

/-- A rank is kept within the list that it points into. -/
theorem placeOfRank_lt {count : Nat} (h : 0 < count) (rank : Float) :
    placeOfRank count rank < count := by
  rw [placeOfRank]
  omega

omit [RandomSource g] in
theorem yields_positiveRanked (rank : Nat → Draw g Float) (c : Column) (size : Nat) :
    Yields (positiveRanked rank c size) fun drawn =>
      (drawn.size = if (presentValues c).isEmpty then 0 else size) ∧
        ∀ value, value ∈ drawn → value ∈ presentValues c := by
  refine yields_repeated_unless_isEmpty size fun hpos => ?_
  -- Whatever the rank, its place lies in the list, so the value is one of the list.
  refine (yields_true (rank _)).bind fun drawn _ => yields_pure ?_
  simp [placeOfRank_lt hpos drawn]

/-- A toss that shows heads finds a value to choose. -/
theorem yields_mixed (c : Column) (hitRate : Float) (size : Nat) (limit : Nat := drawLimit) :
    Yields (mixed c hitRate size limit : Draw g (Array Int64)) fun drawn =>
      drawn.size = size ∧
        ∀ value, value ∈ drawn → value ∈ presentValues c ∨ c.contains value = false := by
  rw [mixed]
  refine yields_repeated ?_ size
  by_cases hempty : (presentValues c).isEmpty = true
  · simp only [hempty, if_true]
    refine yields_toss_zero.bind fun heads hheads => ?_
    rw [hheads]
    exact (yields_drawAbsent c limit).mono fun value hvalue => Or.inr hvalue
  · simp only [hempty, if_false, Bool.false_eq_true]
    have hpos := size_pos_of_isEmpty hempty
    refine (yields_true _).bind fun heads _ => ?_
    cases heads with
    | true => exact (yields_oneOf hpos).mono fun value hvalue => Or.inl hvalue
    | false => exact (yields_drawAbsent c limit).mono fun value hvalue => Or.inr hvalue

end Batch

namespace TestCase

open Draw Batch

variable {g : Type} [RandomSource g]

/-- Every looked up value is either no null value or not a value of the column. -/
theorem yields_draw (testCase : TestCase) (c : Column) (size : Nat) :
    Yields (testCase.draw c size : Draw g (Array Int64)) fun drawn =>
      ∀ value, value ∈ drawn → value ≠ Column.nullValue ∨ c.contains value = false := by
  cases testCase with
  | positiveUniform =>
    refine (yields_drawEvenly (presentRows c) size).mono fun drawn hdrawn value hvalue => ?_
    exact Or.inl (mem_presentRows.1 (hdrawn.2 value hvalue)).2
  | positiveDistinct =>
    refine (yields_drawEvenly (presentValues c) size).mono fun drawn hdrawn value hvalue => ?_
    exact Or.inl (mem_presentValues.1 (hdrawn.2 value hvalue)).2
  | positiveZipf =>
    refine (yields_positiveRanked Zipf.rank c size).mono fun drawn hdrawn value hvalue => ?_
    exact Or.inl (mem_presentValues.1 (hdrawn.2 value hvalue)).2
  | negative =>
    refine (yields_repeated (yields_drawAbsent c) size).mono fun drawn hdrawn value hvalue => ?_
    exact Or.inr (hdrawn.2 value hvalue)
  | mixed hitRate =>
    refine (yields_mixed c hitRate size).mono fun drawn hdrawn value hvalue => ?_
    exact (hdrawn.2 value hvalue).imp_left fun hpresent => (mem_presentValues.1 hpresent).2

/-- A looked up value that a row holds is no null value.  This also goes for a
column that has lost rows: its set of different values may then be larger than
its rows, but never smaller. -/
theorem lookup_ne_null {c : Column} (hc : c.Reachable) (testCase : TestCase) (size : Nat) :
    Yields (testCase.draw c size : Draw g (Array Int64)) fun drawn =>
      ∀ value, value ∈ drawn → value ∈ c.values → value ≠ Column.nullValue := by
  refine (yields_draw testCase c size).mono fun drawn hdrawn value hvalue hrow => ?_
  rcases hdrawn value hvalue with hne | habsent
  · exact hne
  · rw [hc.contains hrow] at habsent
    exact absurd habsent (by decide)

end TestCase

end StripePruning
