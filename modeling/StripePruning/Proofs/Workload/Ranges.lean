import StripePruning.Proofs.Workload.Answers

/-!
# What a query is answered

The answer to a query is put together value by value.  This module says which stripes
are in it.

* `foldlM_unite` is the run over the values of a walk, and `qualifyingStripes_eq` what
  a query comes to: a stripe is in the answer if it is named for one of the values.
* `qualifyingStripes_interval` adds for each family of indexes what that means in terms
  of rows, and cuts an answer in two.
-/

namespace StripePruning

namespace Query

/-- Whether a value lies between the bounds of a query. -/
def Asks (query : Query) (value : Int64) : Prop :=
  query.bounds.1 ≤ value ∧ value ≤ query.bounds.2

@[simp] theorem asks_range {first last value : Int64} :
    (range first last).Asks value ↔ first ≤ value ∧ value ≤ last := Iff.rfl

section Built

variable {c : Column} {stripeSize : Nat} {config : IndexConfig} {index : Index}

/-- Uniting over some values adds the stripes that are named for one of them. -/
theorem foldlM_unite (hindex : index.Built c stripeSize config) (n : Nat) (values : List Int64)
    (bits : Nat → Bool) :
    values.foldlM (unite index n) (Bitmap.ofFn n bits)
      = .ok (Bitmap.ofFn n fun id =>
          bits id || values.any fun value => StripeIndex.stripeContains index id value) := by
  induction values generalizing bits with
  | nil => simp [pure, Except.pure]
  | cons value rest ih =>
    rw [List.foldlM_cons, unite, hindex.qualifyingStripes_eq, Bitmap.union_ofFn]
    simp only [List.any_cons, ← Bool.or_assoc]
    exact ih _

/-- A query is always answered.  A stripe is in the answer if the index names it for one
of the values that the query asks for. -/
theorem qualifyingStripes_eq (hindex : index.Built c stripeSize config) (query : Query)
    (n : Nat) :
    ∃ bits : Nat → Bool, query.qualifyingStripes index n = .ok (Bitmap.ofFn n bits) ∧
      ∀ id, bits id = true ↔
        ∃ value, query.Asks value ∧ StripeIndex.stripeContains index id value = true := by
  rcases Int64.lt_or_le query.bounds.2 query.bounds.1 with hbounds | hbounds
  · refine ⟨fun _ => false, ?_, fun id => ?_⟩
    · rw [qualifyingStripes_of_lt index query n hbounds, Bitmap.zeros_eq_ofFn]
    · simp only [Bool.false_eq_true, false_iff, not_exists, not_and]
      intro value hasks
      exact absurd (Int64.le_trans hasks.1 hasks.2) (Int64.not_le.2 hbounds)
  · obtain ⟨values, hwalk, hrun⟩ := exists_walk_qualifyingStripes index query n hbounds
    refine ⟨fun id => values.any fun value => StripeIndex.stripeContains index id value, ?_,
      fun id => ?_⟩
    · rw [hrun, Bitmap.zeros_eq_ofFn, foldlM_unite hindex]
      simp only [Bool.false_or]
    · rw [List.any_eq_true]
      exact exists_congr fun value => and_congr_left fun _ => hwalk.mem_iff

/-- Cut behind a value, a query asks for what its two parts ask for. -/
theorem asks_iff_or {query : Query} {middle : Int64} (hlower : query.bounds.1 ≤ middle)
    (hupper : middle < query.bounds.2) (value : Int64) :
    query.Asks value ↔
      (range query.bounds.1 middle).Asks value ∨ (range (middle + 1) query.bounds.2).Asks value := by
  rw [Int64.le_iff_toInt_le] at hlower
  rw [Int64.lt_iff_toInt_lt] at hupper
  have hnext := toInt_add_one hupper
  rw [asks_range, asks_range, Asks]
  simp only [Int64.le_iff_toInt_le]
  omega

/-- The answer to a query is the union of the answers to its two parts. -/
theorem union_of_parts (hindex : index.Built c stripeSize config) {query : Query} {n : Nat}
    {answer : Bitmap} (hanswer : query.qualifyingStripes index n = .ok answer) {middle : Int64}
    (hlower : query.bounds.1 ≤ middle) (hupper : middle < query.bounds.2) :
    ∃ lower upper,
      (range query.bounds.1 middle).qualifyingStripes index n = .ok lower ∧
      (range (middle + 1) query.bounds.2).qualifyingStripes index n = .ok upper ∧
      lower.union upper = .ok answer := by
  obtain ⟨bits, hbits, hmem⟩ := qualifyingStripes_eq hindex query n
  obtain ⟨lower, hlowerBits, hlowerMem⟩ :=
    qualifyingStripes_eq hindex (range query.bounds.1 middle) n
  obtain ⟨upper, hupperBits, hupperMem⟩ :=
    qualifyingStripes_eq hindex (range (middle + 1) query.bounds.2) n
  obtain rfl := Except.ok.inj (hanswer.symm.trans hbits)
  refine ⟨_, _, hlowerBits, hupperBits, ?_⟩
  rw [Bitmap.union_ofFn]
  refine congrArg Except.ok (Bitmap.ofFn_congr fun id _ => Bool.eq_iff_iff.2 ?_)
  rw [Bool.or_eq_true, hmem, hlowerMem, hupperMem, ← exists_or]
  refine exists_congr fun value => ?_
  rw [asks_iff_or hlower hupper, or_and_right]

end Built

/-- Every query is answered by every index of a column, for any number of stripes.  With
bounds in order, the answers for the values of a walk from one bound to the other are
united; otherwise no stripe is named.

A stripe is in the answer if it is named for one of the values that the query asks for.
For the index with a bitmap for every value, one of its rows then holds such a value.
For the zone map, it has a row that is not null, and the values from the least to the
greatest such row meet those of the query.  A query that is cut behind a value is
answered with the union of the answers to its parts. -/
theorem qualifyingStripes_interval {config : IndexConfig} {c : Column} {stripeSize : Nat}
    {index : Index} (hindex : config.build c stripeSize = .ok index) (query : Query) (n : Nat) :
    ∃ answer, query.qualifyingStripes index n = .ok answer ∧ answer.len = n ∧
      (query.bounds.1 ≤ query.bounds.2 → ∃ values, Walk query.bounds.2 query.bounds.1 values ∧
        values.foldlM (unite index n) (Bitmap.zeros n) = .ok answer) ∧
      (query.bounds.2 < query.bounds.1 → answer = Bitmap.zeros n) ∧
      (∀ id, answer.get id = true ↔ id < n ∧
        ∃ value, query.Asks value ∧ StripeIndex.stripeContains index id value = true) ∧
      (∀ p, index = .perValueBitmap p → ∀ id, answer.get id = true ↔ id < n ∧
        ∃ row value, c.valueAt? row = some value ∧ row / stripeSize = id ∧ query.Asks value) ∧
      (∀ z, index = .zoneMap z → ∀ id, answer.get id = true ↔ id < n ∧
        ∃ least greatest, IsLeast (c.present stripeSize id) least ∧
          IsGreatest (c.present stripeSize id) greatest ∧
          max query.bounds.1 least ≤ min query.bounds.2 greatest) ∧
      ∀ middle, query.bounds.1 ≤ middle → middle < query.bounds.2 → ∃ lower upper,
        (range query.bounds.1 middle).qualifyingStripes index n = .ok lower ∧
        (range (middle + 1) query.bounds.2).qualifyingStripes index n = .ok upper ∧
        lower.union upper = .ok answer := by
  have hbuilt := Index.built_of_build hindex
  obtain ⟨bits, hanswer, hbits⟩ := qualifyingStripes_eq hbuilt query n
  have hget : ∀ id, (Bitmap.ofFn n bits).get id = true ↔ id < n ∧
      ∃ value, query.Asks value ∧ StripeIndex.stripeContains index id value = true := by
    intro id
    rw [Bitmap.get_ofFn, Bool.and_eq_true, decide_eq_true_eq, hbits]
  refine ⟨_, hanswer, rfl, fun hbounds => ?_, fun hbounds => ?_, hget, ?_, ?_,
    fun middle => union_of_parts hbuilt hanswer⟩
  · obtain ⟨values, hwalk, hrun⟩ := exists_walk_qualifyingStripes index query n hbounds
    exact ⟨values, hwalk, hrun.symm.trans hanswer⟩
  · exact Except.ok.inj (hanswer.symm.trans (qualifyingStripes_of_lt index query n hbounds))
  · rintro p rfl id
    cases hbuilt with
    | perValueBitmap h =>
      have hsize := PerValueBitmap.stripeSize_pos_of_build h
      rw [hget]
      simp only [(Index.Built.perValueBitmap h).stripeContains_eq, Column.stripeContains_iff hsize]
      refine and_congr_right fun _ => ⟨?_, ?_⟩
      · rintro ⟨value, hasks, row, hrow, hid⟩
        exact ⟨row, value, hrow, hid, hasks⟩
      · rintro ⟨row, value, hrow, hid, hasks⟩
        exact ⟨value, hasks, row, hrow, hid⟩
  · rintro z rfl id
    cases hbuilt with
    | zoneMap h =>
      rw [hget]
      exact and_congr_right fun _ => ZoneMap.exists_covers_iff h

/-- The query that goes up to the greatest 64-bit integer, on three stripes of which the
first one also holds a null value and the last one is not full. -/
theorem qualifyingStripes_interval_to_end :
    ∃ p answer lower upper,
      IndexConfig.build .perValueBitmap
        (Column.ofValues "c" #[Int64.maxValue, Column.nullValue, 5, 1, 8]) 2
        = .ok (.perValueBitmap p) ∧
      (range 6 Int64.maxValue).qualifyingStripes (Index.perValueBitmap p) 4 = .ok answer ∧
      answer.get 0 = true ∧ answer.get 1 = false ∧ answer.get 2 = true ∧
      (range 6 7).qualifyingStripes (Index.perValueBitmap p) 4 = .ok lower ∧
      (range 8 Int64.maxValue).qualifyingStripes (Index.perValueBitmap p) 4 = .ok upper ∧
      lower.union upper = .ok answer := by
  obtain ⟨p, hp, -⟩ := PerValueBitmap.build_records
    (Column.ofValues "c" #[Int64.maxValue, Column.nullValue, 5, 1, 8]) (by decide : 0 < 2)
  have hbuild : IndexConfig.build .perValueBitmap
      (Column.ofValues "c" #[Int64.maxValue, Column.nullValue, 5, 1, 8]) 2
      = .ok (.perValueBitmap p) := by
    rw [IndexConfig.build, hp]
    rfl
  obtain ⟨answer, hanswer, -, -, -, -, hrows, -, hparts⟩ :=
    qualifyingStripes_interval hbuild (range 6 Int64.maxValue) 4
  obtain ⟨lower, upper, hlower, hupper, hunion⟩ := hparts 7 (by decide) (by decide)
  refine ⟨p, answer, lower, upper, hbuild, hanswer, ?_, ?_, ?_, hlower, hupper, hunion⟩
  · exact (hrows p rfl 0).2 ⟨by decide, 0, Int64.maxValue, rfl, rfl, by decide, by decide⟩
  · rw [← Bool.not_eq_true, hrows p rfl]
    rintro ⟨-, row, value, hvalue, hrow, hasks⟩
    obtain rfl | rfl : row = 2 ∨ row = 3 := by omega
    · obtain rfl : (5 : Int64) = value := Option.some.inj hvalue
      exact absurd hasks.1 (by decide)
    · obtain rfl : (1 : Int64) = value := Option.some.inj hvalue
      exact absurd hasks.1 (by decide)
  · exact (hrows p rfl 2).2 ⟨by decide, 4, 8, rfl, rfl, by decide, by decide⟩

end Query

end StripePruning
