import StripePruning.Proofs.Table.Rearrangements

/-!
# The sorted order of the rows

Sorting by cardinality takes all columns as keys, so two rows with equal keys
are the same row and there is only one sorted arrangement of given rows.

* `KeyOrder` are the places of the columns in the order in which they count as
  keys, and `Ascending` says that rows are sorted by them.  `exists_keyOrder`
  and `rowLE_iff` show that the sort compares rows in this way.
* `Ascending.unique` is the reason why the sort is canonical: sorted rows are
  determined by the rows alone.
* `sortByCardinality_pick` says that the order before the sort does not matter,
  and `sortByCardinality_canonical` what this means for tables that are made of
  columns and sorted or shuffled.
-/

namespace StripePruning

namespace Column

/-- What can be read off a column: its name, its rows and its different values. -/
def contents (c : Column) : String × Array Int64 × List Int64 :=
  (c.name, c.values, c.distinctValues)

/-- Columns with the same different values list and count them alike. -/
theorem distinct_equiv {c d : Column}
    (h : ∀ value, c.contains value = true ↔ d.contains value = true) :
    c.distinct.Equiv d.distinct :=
  Std.TreeSet.Equiv.of_forall_contains_eq fun value => Bool.eq_iff_iff.2 (h value)

/-- Whether a column has at most as many different values as another. -/
def cardinalityLE (a b : Column) : Bool :=
  a.cardinality ≤ b.cardinality

/-- Columns at different places are told apart by their places where they have equally many
different values. -/
theorem lt_of_zipIdxLE {a b : Column × Nat} (h : List.zipIdxLE cardinalityLE a b = true)
    (hne : a.2 ≠ b.2) :
    a.1.cardinality < b.1.cardinality ∨ a.1.cardinality = b.1.cardinality ∧ a.2 < b.2 := by
  simp only [List.zipIdxLE, cardinalityLE, decide_eq_true_eq] at h
  split at h
  · split at h
    · simp only [decide_eq_true_eq] at h
      omega
    · omega
  · cases h

end Column

namespace Table

variable {t u : Table} {order : List Nat} {rows : Array Nat}

/-! ## The order of the keys -/

/-- The number of different values of the column at a place. -/
def cardinalityAt (t : Table) (k : Nat) : Nat :=
  (t.columns.map Column.cardinality).getD k 0

theorem cardinalityAt_eq {k : Nat} {c : Column} (h : t.columns[k]? = some c) :
    t.cardinalityAt k = c.cardinality := by
  simp [cardinalityAt, h]

/-- The places of all columns by ascending numbers of different values, ties in the order
of the table. -/
structure KeyOrder (t : Table) (order : List Nat) : Prop where
  perm : order.Perm (List.range t.columns.length)
  ascending : order.Pairwise fun j k =>
    t.cardinalityAt j < t.cardinalityAt k ∨ t.cardinalityAt j = t.cardinalityAt k ∧ j < k

theorem KeyOrder.unique {other : List Nat} (h : t.KeyOrder order) (hother : t.KeyOrder other) :
    order = other := by
  refine List.Perm.eq_of_pairwise ?_ h.ascending hother.ascending (h.perm.trans hother.perm.symm)
  intro j k _ _ hjk hkj
  omega

theorem KeyOrder.congr (h : t.KeyOrder order) (hlength : u.columns.length = t.columns.length)
    (hcardinality : ∀ k, u.cardinalityAt k = t.cardinalityAt k) : u.KeyOrder order where
  perm := hlength ▸ h.perm
  ascending := by
    simp only [hcardinality]
    exact h.ascending

theorem KeyOrder.pick (h : t.KeyOrder order) (rows : Array Nat) : (t.pick rows).KeyOrder order := by
  refine h.congr (by simp) ?_
  intro k
  simp [cardinalityAt, Function.comp_def]

/-- The sorting keys, each with its place in the table. -/
def placedKeys (t : Table) : List (Column × Nat) :=
  t.columns.zipIdx.mergeSort (List.zipIdxLE Column.cardinalityLE)

/-- The sort of the columns is stable, so it is the sort of the columns with their places. -/
theorem sortKeys_eq_map_fst (t : Table) : t.sortKeys = t.placedKeys.map Prod.fst :=
  List.mergeSort_zipIdx.symm

theorem getElem?_of_mem_placedKeys {pair : Column × Nat} (h : pair ∈ t.placedKeys) :
    t.columns[pair.2]? = some pair.1 :=
  List.mk_mem_zipIdx_iff_getElem?.1 ((List.mergeSort_perm _ _).mem_iff.1 h)

theorem perm_places (t : Table) :
    (t.placedKeys.map Prod.snd).Perm (List.range t.columns.length) := by
  have hmap := (List.mergeSort_perm t.columns.zipIdx (List.zipIdxLE Column.cardinalityLE)).map
    Prod.snd
  rwa [List.zipIdx_map_snd, ← List.range_eq_range'] at hmap

theorem pairwise_placedKeys (t : Table) :
    t.placedKeys.Pairwise fun a b =>
      a.1.cardinality < b.1.cardinality ∨ a.1.cardinality = b.1.cardinality ∧ a.2 < b.2 := by
  have hsorted : t.placedKeys.Pairwise fun a b =>
      List.zipIdxLE Column.cardinalityLE a b = true := by
    apply List.pairwise_mergeSort
    · apply List.zipIdxLE_trans
      intro a b c hab hbc
      simp only [Column.cardinalityLE, decide_eq_true_eq] at hab hbc ⊢
      omega
    · apply List.zipIdxLE_total
      intro a b
      simp only [Column.cardinalityLE, Bool.or_eq_true, decide_eq_true_eq]
      omega
  have hplaces : t.placedKeys.Pairwise fun a b => a.2 ≠ b.2 :=
    List.pairwise_map.1 (t.perm_places.nodup_iff.2 List.nodup_range)
  refine (hsorted.and hplaces).imp ?_
  intro a b hab
  exact Column.lt_of_zipIdxLE hab.1 hab.2

/-- The places of the sorting keys are in the order of the keys. -/
theorem exists_keyOrder (t : Table) :
    ∃ order, t.KeyOrder order ∧ t.sortKeys.map some = order.map fun k => t.columns[k]? := by
  refine ⟨t.placedKeys.map Prod.snd, ⟨t.perm_places, List.pairwise_map.2 ?_⟩, ?_⟩
  · refine t.pairwise_placedKeys.imp_of_mem ?_
    intro a b ha hb hab
    rwa [cardinalityAt_eq (getElem?_of_mem_placedKeys ha),
      cardinalityAt_eq (getElem?_of_mem_placedKeys hb)]
  · rw [sortKeys_eq_map_fst, List.map_map, List.map_map]
    apply List.map_congr_left
    intro pair hpair
    exact (getElem?_of_mem_placedKeys hpair).symm

theorem keyOrder_sortKeys (h : t.KeyOrder order) :
    t.sortKeys.map some = order.map fun k => t.columns[k]? := by
  obtain ⟨other, hother, hkeys⟩ := t.exists_keyOrder
  rwa [h.unique hother]

/-! ## Sorted rows -/

/-- The values of a row in the order of the keys. -/
def keyOf (order : List Nat) (values : List Int64) : List Int64 :=
  order.map fun k => values.getD k Column.nullValue

/-- No row comes before one with a smaller key.  Keys are compared from the first value on. -/
def Ascending (order : List Nat) (tuples : List (List Int64)) : Prop :=
  tuples.Pairwise fun x y => keyOf order x ≤ keyOf order y

theorem keyOf_tuple (h : t.KeyOrder order) (row : Nat) :
    keyOf order (t.tuple row)
      = t.sortKeys.map fun c => c.values.getD row Column.nullValue := by
  have hkeys := congrArg
    (List.map fun c? : Option Column => (c?.map fun c => c.values.getD row Column.nullValue).getD
      Column.nullValue) (keyOrder_sortKeys h)
  simp only [List.map_map, Function.comp_def, Option.map_some, Option.getD_some] at hkeys
  rw [hkeys]
  apply List.map_congr_left
  intro k _
  simp [tuple]

/-- The test of the sort is the order of the keys. -/
theorem rowLE_iff (keys : List Column) (i j : Nat) :
    rowLE keys i j = true ↔
      keys.map (fun c => c.values.getD i Column.nullValue)
        ≤ keys.map fun c => c.values.getD j Column.nullValue := by
  induction keys with
  | nil => simp [rowLE]
  | cons key keys ih =>
    simp only [rowLE, List.map_cons, List.cons_le_cons_iff]
    generalize key.values.getD i Column.nullValue = x
    generalize key.values.getD j Column.nullValue = y
    by_cases heq : x = y
    · simp [heq, ih]
    · simp [heq]

theorem ascending_sortedRows (h : t.KeyOrder order) :
    Ascending order (t.sortedRows.toList.map t.tuple) := by
  have hsorted : t.sortedRows.toList.Pairwise fun i j => rowLE t.sortKeys i j = true := by
    apply List.pairwise_mergeSort
    · intro i j k hij hjk
      rw [rowLE_iff] at hij hjk ⊢
      exact List.le_trans hij hjk
    · intro i j
      rw [Bool.or_eq_true, rowLE_iff, rowLE_iff]
      exact List.le_total _ _
  refine List.pairwise_map.2 (hsorted.imp ?_)
  intro i j hij
  rw [keyOf_tuple h, keyOf_tuple h]
  exact (rowLE_iff _ i j).1 hij

/-- Rows with equal keys are equal, as every column is a key. -/
theorem eq_of_keyOf_eq {width : Nat} (horder : order.Perm (List.range width))
    {x y : List Int64} (hx : x.length = width) (hy : y.length = width)
    (h : keyOf order x = keyOf order y) : x = y := by
  apply List.ext_getElem (hx.trans hy.symm)
  intro k hkx hky
  have hk : k ∈ order := horder.mem_iff.2 (List.mem_range.2 (hx ▸ hkx))
  have hvalue := List.map_inj_left.1 h k hk
  simpa [hkx, hky] using hvalue

/-- There is one sorted arrangement of given rows. -/
theorem Ascending.unique {width : Nat} (horder : order.Perm (List.range width))
    {tuples others : List (List Int64)} (hwidth : ∀ x, x ∈ tuples → x.length = width)
    (hperm : tuples.Perm others) (h : Ascending order tuples) (hothers : Ascending order others) :
    tuples = others := by
  refine List.Perm.eq_of_pairwise ?_ h hothers hperm
  intro x y hx hy hxy hyx
  have hy' := hwidth y (hperm.mem_iff.2 hy)
  exact eq_of_keyOf_eq horder (hwidth x hx) hy' (List.le_antisymm hxy hyx)

/-! ## The sorted table -/

theorem reorder_eq_ok (ht : t.Rectangular) (h : ∀ row, row ∈ rows → row < t.numRows) :
    t.reorder rows = .ok (t.pick rows) := by
  rw [reorder_eq_rewrite, rewrite_of_lt ht h]
  rfl

theorem lt_of_perm {n : Nat} (h : rows.toList.Perm (List.range n)) {row : Nat} (hrow : row ∈ rows) :
    row < n :=
  List.mem_range.1 (h.mem_iff.1 (Array.mem_toList_iff.2 hrow))

/-- A table can always be sorted. -/
theorem sortByCardinality_eq_ok (ht : t.Rectangular) :
    t.sortByCardinality = .ok (t.pick t.sortedRows) :=
  reorder_eq_ok ht fun _ hrow => lt_of_perm t.perm_sortedRows hrow

theorem tuples_pick_of_perm (h : rows.toList.Perm (List.range t.numRows)) :
    (t.pick rows).tuples = rows.toList.map t.tuple := by
  by_cases hnil : t.columns = []
  · have hrows : rows.toList = [] := by
      rw [numRows_of_columns_eq_nil hnil, List.range_zero] at h
      exact h.eq_nil
    rw [pick_of_columns_eq_nil hnil, tuples_of_columns_eq_nil hnil, hrows, List.map_nil]
  · exact tuples_pick hnil rows

theorem ascending_sorted (h : t.KeyOrder order) :
    Ascending order (t.pick t.sortedRows).tuples := by
  rw [tuples_pick_of_perm t.perm_sortedRows]
  exact ascending_sortedRows h

/-- Every way to take all rows in sorted order gives the same table. -/
theorem pick_eq_sorted (h : t.KeyOrder order) (hperm : rows.toList.Perm (List.range t.numRows))
    (hrows : Ascending order (t.pick rows).tuples) : t.pick rows = t.pick t.sortedRows := by
  refine ext_tuples (t.rectangular_pick rows) (t.rectangular_pick t.sortedRows) rfl (by simp) ?_
  refine Ascending.unique h.perm ?_ ?_ hrows (ascending_sorted h)
  · intro values hvalues
    simpa using length_of_mem_tuples hvalues
  · exact (t.tuples_pick_perm hperm).trans (t.tuples_pick_perm t.perm_sortedRows).symm

/-- So it does not matter how the sort arranges rows that it takes for equal. -/
theorem reorder_eq_sortByCardinality (ht : t.Rectangular) (h : t.KeyOrder order)
    (hperm : rows.toList.Perm (List.range t.numRows))
    (hrows : Ascending order (rows.toList.map t.tuple)) : t.reorder rows = t.sortByCardinality := by
  rw [← tuples_pick_of_perm hperm] at hrows
  rw [reorder_eq_ok ht fun _ hrow => lt_of_perm hperm hrow, pick_eq_sorted h hperm hrows,
    sortByCardinality_eq_ok ht]

/-- The order of the rows before the sort does not matter. -/
theorem sortByCardinality_pick (ht : t.Rectangular)
    (hperm : rows.toList.Perm (List.range t.numRows)) :
    (t.pick rows).sortByCardinality = t.sortByCardinality := by
  obtain ⟨order, horder, -⟩ := t.exists_keyOrder
  have hfirst : t.OriginsOf (t.pick rows) rows := ⟨fun _ hrow => lt_of_perm hperm hrow, rfl⟩
  have hsort := (t.pick rows).perm_sortedRows
  have hsecond : (t.pick rows).OriginsOf ((t.pick rows).pick (t.pick rows).sortedRows)
      (t.pick rows).sortedRows := ⟨fun _ hrow => lt_of_perm hsort hrow, rfl⟩
  have hpick := (hfirst.trans hsecond).eq_pick
  have hascending := ascending_sorted (horder.pick rows)
  rw [hpick] at hascending
  rw [sortByCardinality_eq_ok (t.rectangular_pick rows), sortByCardinality_eq_ok ht, hpick,
    pick_eq_sorted horder (hfirst.perm_trans hperm hsort) hascending]

/-! ## Tables with the same rows -/

/-- Columns at the same place of tables with the same rows have the same different values. -/
theorem distinct_equiv_of_perm (ht : t.Rectangular) (hu : u.Rectangular) (htExact : t.Exact)
    (huExact : u.Exact) (hperm : u.tuples.Perm t.tuples) {k : Nat} {c d : Column}
    (hc : t.columns[k]? = some c) (hd : u.columns[k]? = some d) :
    d.distinct.Equiv c.distinct := by
  have hvalues : d.values.toList.Perm c.values.toList := by
    rw [toList_values ht hc, toList_values hu hd]
    exact hperm.map _
  apply Column.distinct_equiv
  intro value
  rw [htExact c (List.mem_of_getElem? hc), huExact d (List.mem_of_getElem? hd),
    ← Array.mem_toList_iff, ← Array.mem_toList_iff, hvalues.mem_iff]

theorem KeyOrder.of_perm (h : t.KeyOrder order) (ht : t.Rectangular) (hu : u.Rectangular)
    (htExact : t.Exact) (huExact : u.Exact) (hlength : u.columns.length = t.columns.length)
    (hperm : u.tuples.Perm t.tuples) : u.KeyOrder order := by
  refine h.congr hlength ?_
  intro k
  by_cases hk : k < t.columns.length
  · have hc := List.getElem?_eq_getElem hk
    have hd := List.getElem?_eq_getElem (hlength ▸ hk)
    rw [cardinalityAt_eq hc, cardinalityAt_eq hd]
    exact (distinct_equiv_of_perm ht hu htExact huExact hperm hc hd).size_eq
  · simp [cardinalityAt, hk, hlength]

theorem contents_eq (ht : t.Rectangular) (hu : u.Rectangular) (htExact : t.Exact)
    (huExact : u.Exact) (hnames : u.columns.map (·.name) = t.columns.map (·.name))
    (htuples : u.tuples = t.tuples) :
    u.columns.map Column.contents = t.columns.map Column.contents := by
  have hlength : u.columns.length = t.columns.length := by
    simpa using congrArg List.length hnames
  apply List.ext_getElem
  · simpa using hlength
  intro k hk hk'
  have hkd : k < u.columns.length := by simpa using hk
  have hkc : k < t.columns.length := by simpa using hk'
  have hc := List.getElem?_eq_getElem hkc
  have hd := List.getElem?_eq_getElem hkd
  have hname : u.columns[k].name = t.columns[k].name := by
    have hat := congrArg (·[k]?) hnames
    simpa [hkd, hkc] using hat
  have hvalues : u.columns[k].values = t.columns[k].values := by
    apply Array.toList_inj.1
    rw [toList_values hu hd, toList_values ht hc, htuples]
  have hdistinct : u.columns[k].distinctValues = t.columns[k].distinctValues :=
    (distinct_equiv_of_perm ht hu htExact huExact (List.Perm.of_eq htuples) hc hd).toList_eq
  simp only [List.getElem_map, Column.contents, hname, hvalues, hdistinct]

/-- Tables with the same rows are sorted into the same columns. -/
theorem contents_sorted_eq (ht : t.Fresh) (hu : u.Fresh)
    (hnames : u.columns.map (·.name) = t.columns.map (·.name)) (hperm : u.tuples.Perm t.tuples) :
    (u.pick u.sortedRows).columns.map Column.contents
      = (t.pick t.sortedRows).columns.map Column.contents := by
  obtain ⟨order, horder, -⟩ := t.exists_keyOrder
  have hlength : u.columns.length = t.columns.length := by
    simpa using congrArg List.length hnames
  have huOrder := horder.of_perm ht.rectangular hu.rectangular ht.exact hu.exact hlength hperm
  have htPerm := t.tuples_pick_perm t.perm_sortedRows
  have huPerm := u.tuples_pick_perm u.perm_sortedRows
  have htuples : (u.pick u.sortedRows).tuples = (t.pick t.sortedRows).tuples := by
    refine Ascending.unique huOrder.perm ?_ (huPerm.trans (hperm.trans htPerm.symm))
      (ascending_sorted huOrder) (ascending_sorted horder)
    intro x hx
    simpa using length_of_mem_tuples hx
  refine contents_eq (t.rectangular_pick _) (u.rectangular_pick _)
    (exact_pick ht.rectangular ht.exact t.perm_sortedRows)
    (exact_pick hu.rectangular hu.exact u.perm_sortedRows) ?_ htuples
  simpa [Function.comp_def] using hnames

/-! ## Sorting after sorts and shuffles -/

theorem exists_origins_performAll_sortings (ht : t.Rectangular) (sortings : List Sorting) :
    ∃ origins, t.OriginsOf (t.performAll (sortings.map .applySorting)) origins ∧
      origins.toList.Perm (List.range t.numRows) := by
  obtain ⟨origins, horigins, hperm⟩ :=
    exists_origins_performAll ht (sortings.map .applySorting)
  refine ⟨origins, horigins, hperm ?_⟩
  intro call hcall
  obtain ⟨sorting, -, rfl⟩ := List.mem_map.1 hcall
  trivial

/-- The table that a run of sorts and shuffles leaves is sorted as the one it started with. -/
theorem sortByCardinality_performAll (ht : t.Rectangular) (sortings : List Sorting) :
    (t.performAll (sortings.map .applySorting)).sortByCardinality = t.sortByCardinality := by
  obtain ⟨origins, horigins, hperm⟩ := exists_origins_performAll_sortings ht sortings
  rw [horigins.eq_pick, sortByCardinality_pick ht hperm]

/-- Sorting by cardinality gives the one arrangement of the rows that is sorted by all columns,
the one with the fewest different values first and ties in the order of the table.  So it does
not matter in which order the rows were before: every list of row numbers that sorts them gives
the same table, and so does sorting once more or shuffling first.  Tables with the same names of
columns and the same rows come out alike. -/
theorem sortByCardinality_canonical (ht : t.Fresh) (sortings : List Sorting) :
    ∃ left sorted order,
      t.performAll (sortings.map .applySorting) = left ∧
      left.sortByCardinality = .ok sorted ∧
      t.KeyOrder order ∧
      (∃ origins : Array Nat, origins.toList.Perm (List.range t.numRows) ∧
        sorted = t.pick origins) ∧
      sorted.tuples.Perm t.tuples ∧
      Ascending order sorted.tuples ∧
      (∀ tuples, tuples.Perm t.tuples → Ascending order tuples → tuples = sorted.tuples) ∧
      (∀ rows : Array Nat, rows.toList.Perm (List.range left.numRows) →
        Ascending order (rows.toList.map left.tuple) → left.reorder rows = .ok sorted) ∧
      sorted.sortByCardinality = .ok sorted ∧
      (left.perform .shuffle).1.sortByCardinality = .ok sorted ∧
      (∀ u, Fresh u → u.columns.map (·.name) = t.columns.map (·.name) →
        u.tuples.Perm t.tuples → ∀ others : List Sorting, ∃ result,
          (u.performAll (others.map .applySorting)).sortByCardinality = .ok result ∧
          result.columns.map Column.contents = sorted.columns.map Column.contents) := by
  have hrect := ht.rectangular
  obtain ⟨order, horder, -⟩ := t.exists_keyOrder
  obtain ⟨origins, hleft, -⟩ := exists_origins_performAll_sortings hrect sortings
  have hsort : (t.performAll (sortings.map .applySorting)).sortByCardinality
      = .ok (t.pick t.sortedRows) := by
    rw [sortByCardinality_performAll hrect, sortByCardinality_eq_ok hrect]
  have hperm := t.tuples_pick_perm t.perm_sortedRows
  have hascending := ascending_sorted horder
  refine ⟨_, t.pick t.sortedRows, order, rfl, hsort, horder, ⟨_, t.perm_sortedRows, rfl⟩, hperm,
    hascending, ?_, ?_, ?_, ?_, ?_⟩
  · intro tuples htuples hother
    refine (Ascending.unique horder.perm ?_ (hperm.trans htuples.symm) hascending hother).symm
    intro x hx
    simpa using length_of_mem_tuples hx
  · intro rows hrows hother
    have hleftOrder : (t.performAll (sortings.map .applySorting)).KeyOrder order :=
      hleft.eq_pick ▸ horder.pick origins
    rw [reorder_eq_sortByCardinality hleft.rectangular hleftOrder hrows hother, hsort]
  · rw [sortByCardinality_pick hrect t.perm_sortedRows, sortByCardinality_eq_ok hrect]
  · obtain ⟨shuffled, hshuffle, hshufflePerm⟩ :=
      exists_origins_perform hleft.rectangular .shuffle
    rw [hshuffle.eq_pick, sortByCardinality_pick hleft.rectangular (hshufflePerm trivial), hsort]
  · intro u hu hnames hrows others
    refine ⟨u.pick u.sortedRows, ?_, contents_sorted_eq ht hu hnames hrows⟩
    rw [sortByCardinality_performAll hu.rectangular, sortByCardinality_eq_ok hu.rectangular]

/-- Two columns with three different values each, so the first one is the first key, and the
null value is the least of its column. -/
theorem sortByCardinality_canonical_orders :
    orders.Fresh ∧ ∃ sorted,
      (orders.performAll ([.random, .byCardinality].map .applySorting)).sortByCardinality
        = .ok sorted ∧
      sorted.tuples = [[1, 1], [13, Column.nullValue], [42, 0], [42, 1]] ∧
      sorted.sortByCardinality = .ok sorted := by
  obtain ⟨left, sorted, order, rfl, hsort, horder, -, -, -, hunique, -, hagain, -⟩ :=
    sortByCardinality_canonical fresh_orders [.random, .byCardinality]
  have hkeys : orders.KeyOrder [0, 1] := ⟨List.Perm.refl _, by decide +kernel⟩
  obtain rfl := horder.unique hkeys
  refine ⟨fresh_orders, sorted, hsort, ?_, hagain⟩
  refine (hunique _ ?_ ?_).symm
  · decide +kernel
  · unfold Ascending keyOf
    decide +kernel

end Table

end StripePruning
