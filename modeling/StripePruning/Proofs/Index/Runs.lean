import Mathlib.Data.List.Permutation
import Mathlib.Data.Nat.Find
import StripePruning.Proofs.Bitmap.Counts
import StripePruning.Proofs.Index.Exact
import StripePruning.Proofs.Index.Zones
import StripePruning.Proofs.Table.Order

/-!
# Sorted columns prune well

In a column whose rows ascend, the rows of a value follow each other.  So the
stripes of a value are neighbours, and values share a stripe only where one
ends and the next one starts.

* `exists_run` gives the first and the last stripe of a value, and `le_of_lt`
  says that greater values come later.
* `covers_eq_stripeContains` says that the zone map of such a column is exact
  for its values: none of them lies inside the zone of a stripe that does not
  hold it.
* `sum_count_le` counts the stripes of all values, and `sum_count_knownValues_le`
  those that the zone map names.
* `exists_leading` finds such a column in a sorted table, and
  `leading_column_runs` says how it is pruned.
-/

namespace StripePruning

namespace Column

/-- No row is greater than a later one. -/
def Ascending (c : Column) : Prop :=
  c.values.toList.Pairwise (· ≤ ·)

namespace Ascending

variable {c : Column} {stripeSize : Nat}

theorem row_lt (h : c.Ascending) {i j : Nat} {a b : Int64} (ha : c.valueAt? i = some a)
    (hb : c.valueAt? j = some b) (hlt : a < b) : i < j := by
  obtain ⟨hi, rfl⟩ := Array.getElem?_eq_some_iff.1 ha
  obtain ⟨hj, rfl⟩ := Array.getElem?_eq_some_iff.1 hb
  apply Nat.lt_of_not_le
  intro hle
  rcases Nat.lt_or_eq_of_le hle with hji | rfl
  · have hpair := List.pairwise_iff_getElem.1 h j i (by simpa using hj) (by simpa using hi) hji
    rw [Array.getElem_toList, Array.getElem_toList] at hpair
    exact absurd (Int64.lt_of_lt_of_le hlt hpair) (Int64.lt_irrefl)
  · exact absurd hlt Int64.lt_irrefl

/-- A stripe between two rows of a value holds the value. -/
theorem stripeContains_of_between (h : c.Ascending) (hsize : 0 < stripeSize) {value : Int64}
    {i j id : Nat} (hi : c.valueAt? i = some value) (hj : c.valueAt? j = some value)
    (hfirst : i / stripeSize ≤ id) (hlast : id ≤ j / stripeSize) :
    c.stripeContains stripeSize id value = true := by
  rw [stripeContains_iff hsize]
  rcases Nat.eq_or_lt_of_le hfirst with heq | hlt
  · exact ⟨i, hi, heq⟩
  -- The first row of the stripe lies behind row `i` and not behind row `j`.
  have hbefore : i < stripeSize * id := by
    rw [Nat.mul_comm]
    exact (Nat.div_lt_iff_lt_mul hsize).1 hlt
  have hbehind : stripeSize * id ≤ j := by
    rw [Nat.mul_comm]
    exact (Nat.le_div_iff_mul_le hsize).1 hlast
  obtain ⟨hjRows, -⟩ := Array.getElem?_eq_some_iff.1 hj
  have hrows : stripeSize * id < c.values.size := by omega
  have hrow : c.valueAt? (stripeSize * id) = some c.values[stripeSize * id] :=
    Array.getElem?_eq_getElem hrows
  have heq : c.values[stripeSize * id] = value := by
    apply Int64.le_antisymm
    · rw [← Int64.not_lt]
      intro habove
      have := h.row_lt hj hrow habove
      omega
    · rw [← Int64.not_lt]
      intro hbelow
      have := h.row_lt hrow hi hbelow
      omega
  refine ⟨stripeSize * id, ?_, Nat.mul_div_cancel_left id hsize⟩
  rw [hrow, heq]

/-- The stripes of a value go from a first to a last one without a gap. -/
theorem exists_run (h : c.Ascending) (hsize : 0 < stripeSize) {value : Int64}
    (hvalue : value ∈ c.values) :
    ∃ first last, first ≤ last ∧ last < c.numStripes stripeSize ∧
      ∀ id, c.stripeContains stripeSize id value = true ↔ first ≤ id ∧ id ≤ last := by
  have hheld := (exists_stripeContains_iff hsize).2 hvalue
  obtain ⟨first, hfirst, hleast⟩ :
      ∃ first, c.stripeContains stripeSize first value = true ∧
        ∀ id, c.stripeContains stripeSize id value = true → first ≤ id :=
    ⟨Nat.find hheld, Nat.find_spec hheld, fun _ hid => Nat.find_min' hheld hid⟩
  obtain ⟨last, hlast, hgreatest⟩ :
      ∃ last, c.stripeContains stripeSize last value = true ∧
        ∀ id, c.stripeContains stripeSize id value = true → id ≤ last := by
    refine ⟨Nat.findGreatest (fun id => c.stripeContains stripeSize id value = true)
      (c.numStripes stripeSize), ?_, ?_⟩
    · have hbound := lt_numStripes_of_stripeContains hsize hfirst
      exact Nat.findGreatest_spec (P := fun id => c.stripeContains stripeSize id value = true)
        (Nat.le_of_lt hbound) hfirst
    · intro id hid
      exact Nat.le_findGreatest (Nat.le_of_lt (lt_numStripes_of_stripeContains hsize hid)) hid
  refine ⟨first, last, hgreatest first hfirst, lt_numStripes_of_stripeContains hsize hlast, ?_⟩
  intro id
  constructor
  · intro hid
    exact ⟨hleast id hid, hgreatest id hid⟩
  · intro hid
    obtain ⟨i, hi, rfl⟩ := (stripeContains_iff hsize).1 hfirst
    obtain ⟨j, hj, rfl⟩ := (stripeContains_iff hsize).1 hlast
    exact h.stripeContains_of_between hsize hi hj hid.1 hid.2

/-- No stripe of a value lies behind one of a greater value. -/
theorem le_of_lt (h : c.Ascending) (hsize : 0 < stripeSize) {a b : Int64} (hlt : a < b)
    {i j : Nat} (ha : c.stripeContains stripeSize i a = true)
    (hb : c.stripeContains stripeSize j b = true) : i ≤ j := by
  obtain ⟨row, hrow, rfl⟩ := (stripeContains_iff hsize).1 ha
  obtain ⟨row', hrow', rfl⟩ := (stripeContains_iff hsize).1 hb
  exact Nat.div_le_div_right (Nat.le_of_lt (h.row_lt hrow hrow' hlt))

/-- A value of the column that lies between two values of a stripe is a value of the
stripe. -/
theorem stripeContains_of_present (h : c.Ascending) (hsize : 0 < stripeSize)
    {value lower upper : Int64} {id : Nat} (hvalue : value ∈ c.values)
    (hlower : lower ∈ c.present stripeSize id) (hupper : upper ∈ c.present stripeSize id)
    (hle : lower ≤ value) (hge : value ≤ upper) :
    c.stripeContains stripeSize id value = true := by
  have hholds : ∀ bound, bound ∈ c.present stripeSize id →
      c.stripeContains stripeSize id bound = true := by
    intro bound hbound
    exact (stripeContains_iff hsize).2 hbound.2
  obtain ⟨own, hown⟩ := (exists_stripeContains_iff hsize).2 hvalue
  by_cases hlowerEq : lower = value
  · exact hlowerEq ▸ hholds lower hlower
  by_cases hupperEq : value = upper
  · exact hupperEq ▸ hholds upper hupper
  -- The stripe that holds the value is neither before nor behind the stripe in question.
  have hbehind := h.le_of_lt hsize (Int64.lt_of_le_of_ne hle hlowerEq) (hholds lower hlower) hown
  have hbefore := h.le_of_lt hsize (Int64.lt_of_le_of_ne hge hupperEq) hown (hholds upper hupper)
  have heq : own = id := by omega
  exact heq ▸ hown

/-- The stripes of ascending values, counted for each value on its own: they are at most one
more for each value than the stripes from `start` on. -/
theorem sum_count_le (h : c.Ascending) (hsize : 0 < stripeSize) {values : List Int64}
    (hvalues : values.Pairwise (· < ·)) (hheld : ∀ value, value ∈ values → value ∈ c.values)
    {start : Nat} (hstart : start < c.numStripes stripeSize)
    (hbehind : ∀ value, value ∈ values → ∀ id, c.stripeContains stripeSize id value = true →
      start ≤ id) :
    start + (values.map fun value => (Bitmap.ofFn (c.numStripes stripeSize) fun id =>
        c.stripeContains stripeSize id value).count).sum + 1
      ≤ c.numStripes stripeSize + values.length := by
  induction values generalizing start with
  | nil =>
    simp only [List.map_nil, List.sum_nil, List.length_nil]
    omega
  | cons value rest ih =>
    obtain ⟨hfirstLess, hrest⟩ := List.pairwise_cons.1 hvalues
    obtain ⟨first, last, hle, hlast, hrun⟩ :=
      h.exists_run hsize (hheld value List.mem_cons_self)
    have hcount := Bitmap.count_ofFn_interval hlast hrun
    have hlastHeld := (hrun last).2 ⟨hle, Nat.le_refl last⟩
    have hsum := ih hrest (fun other hother => hheld other (List.mem_cons_of_mem value hother))
      hlast fun other hother id hid => h.le_of_lt hsize (hfirstLess other hother) hlastHeld hid
    have hstartFirst := hbehind value List.mem_cons_self first
      ((hrun first).2 ⟨Nat.le_refl first, hle⟩)
    rw [List.map_cons, List.sum_cons, List.length_cons, hcount]
    omega

end Ascending

/-- The different values in ascending order, null apart. -/
def knownValues (c : Column) : List Int64 :=
  c.distinctValues.filter (· ≠ nullValue)

theorem mem_distinctValues {c : Column} {value : Int64} :
    value ∈ c.distinctValues ↔ c.contains value = true := by
  rw [distinctValues, Std.TreeSet.mem_toList, contains, Std.TreeSet.contains_iff_mem]

theorem mem_knownValues {c : Column} {value : Int64} :
    value ∈ c.knownValues ↔ c.contains value = true ∧ value ≠ nullValue := by
  rw [knownValues, List.mem_filter, mem_distinctValues, decide_eq_true_eq]

theorem pairwise_knownValues (c : Column) : c.knownValues.Pairwise (· < ·) := by
  have hdistinct : c.distinctValues.Pairwise (· < ·) :=
    Std.TreeSet.ordered_toList.imp Std.compare_eq_lt.1
  exact hdistinct.filter _

end Column

namespace ZoneMap

/-- The zone map of an ascending column names no stripe in vain for a value of the column. -/
theorem covers_eq_stripeContains {c : Column} {stripeSize : Nat} {z : ZoneMap}
    (hc : c.Ascending) (hz : build c stripeSize = .ok z) {value : Int64}
    (hvalue : value ∈ c.values) (hne : value ≠ Column.nullValue) (id : Nat) :
    z.covers id value = c.stripeContains stripeSize id value := by
  have hsize := (build_eq_ok_iff.1 hz).1
  apply Bool.eq_iff_iff.2
  constructor
  · intro hcovers
    obtain ⟨lower, upper, hlower, hupper, hle, hge⟩ := (covers_iff hz).1 hcovers
    exact hc.stripeContains_of_present hsize hvalue hlower hupper hle hge
  · intro hholds
    exact covers_of_build hz hholds hne

theorem qualifyingStripes_eq {c : Column} {stripeSize : Nat} {z : ZoneMap}
    (hc : c.Ascending) (hz : build c stripeSize = .ok z) {value : Int64}
    (hvalue : value ∈ c.values) (hne : value ≠ Column.nullValue) (n : Nat) :
    StripeIndex.qualifyingStripes z value n
      = Bitmap.ofFn n fun id => c.stripeContains stripeSize id value :=
  Bitmap.ofFn_congr fun id _ => covers_eq_stripeContains hc hz hvalue hne id

/-- The zone map of an ascending column names at most one stripe more for each of its values
than there are stripes, null apart. -/
theorem sum_count_knownValues_le {c : Column} {stripeSize : Nat} {z : ZoneMap}
    (hc : c.Ascending) (hz : build c stripeSize = .ok z)
    (hknown : ∀ value, value ∈ c.knownValues ↔ value ∈ c.values ∧ value ≠ Column.nullValue)
    (hsome : 1 ≤ c.knownValues.length) :
    (c.knownValues.map fun value =>
        (StripeIndex.qualifyingStripes z value (c.numStripes stripeSize)).count).sum
      ≤ c.numStripes stripeSize + c.knownValues.length - 1 := by
  have hsize := (build_eq_ok_iff.1 hz).1
  have hheld : ∀ value, value ∈ c.knownValues → value ∈ c.values := by
    intro value hvalue
    exact ((hknown value).1 hvalue).1
  have hpos : 0 < c.numStripes stripeSize := by
    obtain ⟨value, hvalue⟩ := List.exists_mem_of_length_pos hsome
    obtain ⟨id, hid⟩ := (Column.exists_stripeContains_iff hsize).2 (hheld value hvalue)
    exact Nat.zero_lt_of_lt (Column.lt_numStripes_of_stripeContains hsize hid)
  have hsum := hc.sum_count_le hsize c.pairwise_knownValues hheld hpos
    fun _ _ _ _ => Nat.zero_le _
  have hcounts : c.knownValues.map (fun value =>
        (StripeIndex.qualifyingStripes z value (c.numStripes stripeSize)).count)
      = c.knownValues.map fun value => (Bitmap.ofFn (c.numStripes stripeSize) fun id =>
        c.stripeContains stripeSize id value).count := by
    apply List.map_congr_left
    intro value hvalue
    rw [qualifyingStripes_eq hc hz (hheld value hvalue) ((hknown value).1 hvalue).2]
  rw [hcounts]
  omega

end ZoneMap

/-- The bitmap of a value of an ascending column is one run of stripes. -/
theorem PerValueBitmap.qualifyingStripes_run {c : Column} {stripeSize : Nat}
    {p : PerValueBitmap} (hc : c.Ascending) (hp : PerValueBitmap.build c stripeSize = .ok p)
    {value : Int64} (hvalue : value ∈ c.values) :
    ∃ first last, first ≤ last ∧ last < c.numStripes stripeSize ∧
      ∀ id, (StripeIndex.qualifyingStripes p value (c.numStripes stripeSize)).get id
        = decide (first ≤ id ∧ id ≤ last) := by
  obtain ⟨first, last, hle, hlast, hrun⟩ := hc.exists_run (stripeSize_pos_of_build hp) hvalue
  refine ⟨first, last, hle, hlast, ?_⟩
  intro id
  rw [(records_of_build hp).qualifyingStripes_eq, Bitmap.get_ofFn, Bool.eq_iff_iff,
    Bool.and_eq_true, decide_eq_true_eq, decide_eq_true_eq, hrun]
  omega

/-! ## The leading column of a sorted table -/

namespace Table

/-- The first of the columns with the fewest different values. -/
structure Leads (t : Table) (k : Nat) (c : Column) : Prop where
  column_eq : t.columns[k]? = some c
  fewest : ∀ (j : Nat) (d : Column), t.columns[j]? = some d → c.cardinality ≤ d.cardinality
  first : ∀ (j : Nat) (d : Column), t.columns[j]? = some d → d.cardinality = c.cardinality → k ≤ j

variable {t : Table} {k : Nat} {rest : List Nat}

/-- The first key of a table is its leading column. -/
theorem KeyOrder.leads (h : t.KeyOrder (k :: rest)) : ∃ c, t.Leads k c := by
  have hk : k < t.columns.length :=
    List.mem_range.1 (h.perm.mem_iff.1 List.mem_cons_self)
  have hc := List.getElem?_eq_getElem hk
  have hothers : ∀ j d, t.columns[j]? = some d → j = k ∨
      t.columns[k].cardinality < d.cardinality ∨
        t.columns[k].cardinality = d.cardinality ∧ k < j := by
    intro j d hd
    have hj : j < t.columns.length := (List.getElem?_eq_some_iff.1 hd).1
    rcases List.mem_cons.1 (h.perm.mem_iff.2 (List.mem_range.2 hj)) with heq | hrest
    · exact Or.inl heq
    · have hless := (List.pairwise_cons.1 h.ascending).1 j hrest
      rw [cardinalityAt_eq hc, cardinalityAt_eq hd] at hless
      exact Or.inr hless
  refine ⟨t.columns[k], hc, ?_, ?_⟩
  · intro j d hd
    rcases hothers j d hd with rfl | hless
    · rw [hc] at hd
      exact Nat.le_of_eq (congrArg Column.cardinality (Option.some.inj hd))
    · omega
  · intro j d hd heq
    have hless := hothers j d hd
    omega

/-- The rows of a sorted table ascend in its first key. -/
theorem ascending_leading (ht : t.Rectangular) (h : Ascending (k :: rest) t.tuples) {c : Column}
    (hc : t.columns[k]? = some c) : c.Ascending := by
  unfold Column.Ascending
  rw [toList_values ht hc]
  refine List.pairwise_map.2 (h.imp ?_)
  intro x y hxy
  rw [keyOf, keyOf, List.map_cons, List.map_cons, List.cons_le_cons_iff] at hxy
  rcases hxy with hlt | ⟨heq, -⟩
  · exact Int64.le_of_lt hlt
  · exact heq ▸ Int64.le_refl _

/-- A table with columns has a leading one, and once the table is sorted it ascends. -/
theorem exists_leading (hne : t.columns ≠ []) :
    ∃ k c, (t.pick t.sortedRows).Leads k c ∧ c.Ascending := by
  obtain ⟨order, horder, -⟩ := t.exists_keyOrder
  cases order with
  | nil =>
    have hnone : 0 = t.columns.length := by
      simpa using horder.perm.length_eq
    exact absurd (List.length_eq_zero_iff.1 hnone.symm) hne
  | cons k rest =>
    obtain ⟨c, hleads⟩ := (horder.pick t.sortedRows).leads
    exact ⟨k, c, hleads, ascending_leading (t.rectangular_pick _) (ascending_sorted horder)
      hleads.column_eq⟩

/-- After a table is sorted by cardinality, its first column with the fewest different values
is pruned as well as it can be.  For each value that it holds, the zone map names the same
stripes as the bitmaps do, and these are one run.  All values but null together need no more
stripes than there are, and one more for each value behind the first. -/
theorem leading_column_runs (ht : t.Fresh) (hne : t.columns ≠ []) :
    ∃ sorted k c, t.sortByCardinality = .ok sorted ∧ sorted.Leads k c ∧
      ∀ stripeSize, 0 < stripeSize → ∃ zones bitmaps,
        ZoneMap.build c stripeSize = .ok zones ∧
        PerValueBitmap.build c stripeSize = .ok bitmaps ∧
        (∀ value, value ∈ c.values → value ≠ Column.nullValue →
          StripeIndex.qualifyingStripes zones value (c.numStripes stripeSize)
            = StripeIndex.qualifyingStripes bitmaps value (c.numStripes stripeSize) ∧
          ∃ first last, first ≤ last ∧ last < c.numStripes stripeSize ∧
            ∀ id, (StripeIndex.qualifyingStripes bitmaps value (c.numStripes stripeSize)).get id
              = decide (first ≤ id ∧ id ≤ last)) ∧
        (∀ value, value ∈ c.knownValues ↔ value ∈ c.values ∧ value ≠ Column.nullValue) ∧
        (1 ≤ c.knownValues.length →
          (c.knownValues.map fun value =>
            (StripeIndex.qualifyingStripes zones value (c.numStripes stripeSize)).count).sum
              ≤ c.numStripes stripeSize + c.knownValues.length - 1) := by
  have hrect := ht.rectangular
  have hexact := exact_pick hrect ht.exact t.perm_sortedRows
  obtain ⟨k, c, hleads, hc⟩ := exists_leading hne
  have hknown : ∀ value, value ∈ c.knownValues ↔
      value ∈ c.values ∧ value ≠ Column.nullValue := by
    intro value
    rw [Column.mem_knownValues, hexact c (List.mem_of_getElem? hleads.column_eq)]
  refine ⟨_, k, c, sortByCardinality_eq_ok hrect, hleads, ?_⟩
  intro stripeSize hsize
  obtain ⟨bitmaps, hbitmaps, hrecords⟩ := PerValueBitmap.build_records c hsize
  have hzones : ZoneMap.build c stripeSize
      = .ok (ZoneMap.ofChunks (chunks stripeSize c.values.toList)) :=
    ZoneMap.build_eq_ok_iff.2 ⟨hsize, rfl⟩
  refine ⟨_, bitmaps, hzones, hbitmaps, ?_, hknown,
    ZoneMap.sum_count_knownValues_le hc hzones hknown⟩
  intro value hvalue hnotNull
  refine ⟨?_, PerValueBitmap.qualifyingStripes_run hc hbitmaps hvalue⟩
  rw [ZoneMap.qualifyingStripes_eq hc hzones hvalue hnotNull, hrecords.qualifyingStripes_eq]

/-- Four rows with the values 1, 13, 42 and 42 in the leading column.  Three values in two
stripes take four stripes in all, as 42 is in both of them. -/
theorem leading_column_runs_orders :
    orders.Fresh ∧ orders.columns ≠ [] ∧ ∃ sorted c zones bitmaps,
      orders.sortByCardinality = .ok sorted ∧ sorted.Leads 0 c ∧
      ZoneMap.build c 3 = .ok zones ∧ PerValueBitmap.build c 3 = .ok bitmaps ∧
      StripeIndex.qualifyingStripes zones 42 2 = StripeIndex.qualifyingStripes bitmaps 42 2 ∧
      ([1, 13, 42].map fun value => (StripeIndex.qualifyingStripes zones value 2).count).sum
        ≤ 2 + 3 - 1 := by
  have hne : orders.columns ≠ [] := List.cons_ne_nil _ _
  obtain ⟨sorted, k, c, hsort, hleads, hruns⟩ := leading_column_runs fresh_orders hne
  have hrows : orders.sortedRows = #[2, 1, 3, 0] := by cbv
  obtain rfl : orders.pick #[2, 1, 3, 0] = sorted := by
    rw [sortByCardinality_eq_ok fresh_orders.rectangular, hrows] at hsort
    exact Except.ok.inj hsort
  have htie : ∀ (j : Nat) (d : Column), (orders.pick #[2, 1, 3, 0]).columns[j]? = some d →
      d.cardinality = 3 := by
    intro j d hd
    have hd' := List.mem_of_getElem? hd
    simp only [columns_pick, orders, List.map_cons, List.map_nil, List.mem_cons,
      List.not_mem_nil, or_false] at hd'
    obtain rfl | rfl := hd' <;> decide +kernel
  obtain rfl : k = 0 := by
    have hk := hleads.first 0 _ rfl ((htie 0 _ rfl).trans (htie k c hleads.column_eq).symm)
    omega
  have hcolumn : Column.pick (Column.ofValues "customer" #[42, 13, 1, 42]) #[2, 1, 3, 0] = c :=
    Option.some.inj hleads.column_eq
  have hvalue : 42 ∈ c.values := by
    rw [← hcolumn]
    decide +kernel
  have hstripes : c.numStripes 3 = 2 := by
    rw [← hcolumn]
    decide +kernel
  have hknown : c.knownValues = [1, 13, 42] := by
    rw [← hcolumn]
    decide +kernel
  obtain ⟨zones, bitmaps, hzones, hbitmaps, hsame, -, hsum⟩ := hruns 3 (by decide)
  rw [hstripes] at hsame hsum
  rw [hknown] at hsum
  exact ⟨fresh_orders, hne, _, c, zones, bitmaps, hsort, hleads, hzones, hbitmaps,
    (hsame 42 hvalue (by decide)).1, hsum (by decide)⟩

end Table

end StripePruning
