import StripePruning.Proofs.Index.Soundness
import StripePruning.Proofs.Table.Rows

/-!
# Indexes see the sets of values of the stripes

What an index of a column takes and answers depends on which values each
stripe holds.  The order of the rows in a stripe, repeated values and the name
of the column leave no trace in it.

* `SameStripes` are the columns that are alike in this way, and
  `map_chunks_congr` the one fact about their chunks: what depends on the set
  of values of a chunk only is the same for both.
* `zoneOf_congr`, `distinctCount_congr` and `mayContain_ofValues_congr` say so
  of zones and filters, and `Records.equiv` of bitmaps.
* `build_alike` puts the families together.
-/

namespace StripePruning

namespace Column

/-- Two columns are cut into as many stripes, and stripes at the same place hold the same
values. -/
structure SameStripes (stripeSize : Nat) (c d : Column) : Prop where
  numStripes_eq : c.numStripes stripeSize = d.numStripes stripeSize
  stripeContains_eq : ∀ id value,
    c.stripeContains stripeSize id value = d.stripeContains stripeSize id value

variable {c d : Column} {stripeSize : Nat}

/-- What is made of each chunk by a function of its set of values is the same for both columns. -/
theorem SameStripes.map_chunks_congr {α : Type} (h : c.SameStripes stripeSize d)
    (hsize : 0 < stripeSize) {result : List Int64 → α}
    (hresult : ∀ xs ys : List Int64, (∀ value, value ∈ xs ↔ value ∈ ys) → result xs = result ys) :
    (chunks stripeSize c.values.toList).map result
      = (chunks stripeSize d.values.toList).map result := by
  rw [chunks_eq_stripes c hsize, chunks_eq_stripes d hsize, stripes, stripes, List.map_map,
    List.map_map, h.numStripes_eq]
  apply List.map_congr_left
  intro id _
  apply hresult
  intro value
  rw [← stripeContains_iff_mem, ← stripeContains_iff_mem, h.stripeContains_eq]

/-- Taking all rows in an order that moves none of them to another stripe keeps the values of
the stripes. -/
theorem sameStripes_pick (c : Column) (hsize : 0 < stripeSize) {rows : Array Nat}
    (hperm : rows.toList.Perm (List.range c.numRows))
    (hstay : ∀ i row : Nat, rows[i]? = some row → row / stripeSize = i / stripeSize) :
    c.SameStripes stripeSize (c.pick rows) := by
  have hrows : (c.pick rows).numRows = c.numRows := by
    rw [numRows_pick]
    simpa using hperm.length_eq
  have hlt : ∀ i row : Nat, rows[i]? = some row → row < c.values.size := by
    intro i row hrow
    exact List.mem_range.1 (hperm.mem_iff.1 (Array.mem_toList_iff.2 (Array.mem_of_getElem? hrow)))
  have hvalue : ∀ i, (c.pick rows).valueAt? i = rows[i]?.bind c.valueAt? := by
    intro i
    cases hrow : rows[i]? with
    | none => simp [valueAt?, pick, hrow]
    | some row => simp [valueAt?, pick, hrow, hlt i row hrow]
  refine ⟨by rw [numStripes, numStripes, hrows], ?_⟩
  intro id value
  rw [Bool.eq_iff_iff, stripeContains_iff hsize, stripeContains_iff hsize]
  constructor
  · intro h
    obtain ⟨row, hheld, hid⟩ := h
    obtain ⟨hsmall, -⟩ := Array.getElem?_eq_some_iff.1 hheld
    have hmem := Array.mem_toList_iff.1 (hperm.mem_iff.2 (List.mem_range.2 hsmall))
    obtain ⟨i, hi⟩ := Array.mem_iff_getElem?.1 hmem
    refine ⟨i, ?_, (hstay i row hi).symm.trans hid⟩
    rw [hvalue, hi]
    exact hheld
  · intro h
    obtain ⟨i, hheld, hid⟩ := h
    rw [hvalue] at hheld
    obtain ⟨row, hi, hrow⟩ := Option.bind_eq_some_iff.1 hheld
    exact ⟨row, hrow, (hstay i row hi).trans hid⟩

end Column

/-! ## Zones -/

namespace ZoneMap

/-- A zone depends on the set of values only. -/
theorem zoneOf_congr {xs ys : List Int64} (h : ∀ value, value ∈ xs ↔ value ∈ ys) :
    zoneOf xs = zoneOf ys := by
  by_cases hknown : ∃ value, value ∈ xs ∧ value ≠ Column.nullValue
  · obtain ⟨value, hvalue, hne⟩ := hknown
    obtain ⟨hxsLeast, hxsGreatest⟩ := zoneOf_extremes hvalue hne
    obtain ⟨hysLeast, hysGreatest⟩ := zoneOf_extremes ((h value).1 hvalue) hne
    simp only [← h] at hysLeast hysGreatest
    have hleast := Int64.le_antisymm (hxsLeast.2 hysLeast.1) (hysLeast.2 hxsLeast.1)
    have hgreatest := Int64.le_antisymm (hysGreatest.2 hxsGreatest.1)
      (hxsGreatest.2 hysGreatest.1)
    exact Prod.ext hleast hgreatest
  -- Both lists hold null at most, and such a zone is the one that the walk starts with.
  · have hnone : ∀ zs : List Int64, (∀ value, value ∈ zs → value ∈ xs) →
        zs.filter (· ≠ Column.nullValue) = [] := by
      intro zs hzs
      rw [List.filter_eq_nil_iff]
      intro value hvalue hne
      exact hknown ⟨value, hzs value hvalue, of_decide_eq_true hne⟩
    rw [zoneOf, zoneOf, hnone xs fun _ hvalue => hvalue, hnone ys fun value => (h value).2]

/-- Columns with the same values in their stripes have the same zone map. -/
theorem build_congr {c d : Column} {stripeSize : Nat} (h : c.SameStripes stripeSize d)
    {z : ZoneMap} (hz : build c stripeSize = .ok z) : build d stripeSize = .ok z := by
  obtain ⟨hsize, rfl⟩ := build_eq_ok_iff.1 hz
  refine build_eq_ok_iff.2 ⟨hsize, ?_⟩
  rw [ofChunks, ofChunks, h.map_chunks_congr hsize fun _ _ => zoneOf_congr]

end ZoneMap

/-! ## Filters -/

namespace BlockFilter

/-- A filter answers by the set of its values only. -/
theorem mayContain_ofValues_congr (bytes : Nat) {xs ys : List Int64}
    (h : ∀ value, value ∈ xs ↔ value ∈ ys) :
    (ofValues bytes xs).mayContain = (ofValues bytes ys).mayContain := by
  have hbitsOf : (ofValues bytes xs).bitsOf = (ofValues bytes ys).bitsOf := by
    funext value
    rw [bitsOf, bitsOf, blocks, blocks, bytes_ofValues, bytes_ofValues]
  have hbits : ∀ bit, bit ∈ (ofValues bytes xs).bits ↔ bit ∈ (ofValues bytes ys).bits := by
    intro bit
    rw [mem_bits_ofValues, mem_bits_ofValues]
    simp only [h, hbitsOf]
  funext value
  rw [Bool.eq_iff_iff, mayContain_iff, mayContain_iff]
  simp only [hbits, hbitsOf]

end BlockFilter

namespace PerStripeBloom

theorem distinctCount_congr {xs ys : List Int64} (h : ∀ value, value ∈ xs ↔ value ∈ ys) :
    distinctCount xs = distinctCount ys := by
  have hequiv : (Std.TreeSet.ofList xs).Equiv (Std.TreeSet.ofList ys) := by
    apply Std.TreeSet.Equiv.of_forall_contains_eq
    intro value
    rw [Std.TreeSet.contains_ofList, Std.TreeSet.contains_ofList, Bool.eq_iff_iff,
      List.contains_iff_mem, List.contains_iff_mem]
    exact h value
  exact hequiv.size_eq

theorem widestStripe_eq_foldl (pieces : List (List Int64)) :
    widestStripe pieces = (pieces.map distinctCount).foldl max 1 := by
  rw [widestStripe, List.foldl_map]

section Alike

variable {c d : Column} {stripeSize : Nat} {probability : Float} {p : PerStripeBloom}

/-- The size of the filters is that of the widest stripe, which both columns share. -/
theorem widestStripe_congr (h : c.SameStripes stripeSize d) (hsize : 0 < stripeSize) :
    widestStripe (chunks stripeSize c.values.toList)
      = widestStripe (chunks stripeSize d.values.toList) := by
  rw [widestStripe_eq_foldl, widestStripe_eq_foldl,
    h.map_chunks_congr hsize fun _ _ => distinctCount_congr]

theorem byteSize_ofChunks (pieces : List (List Int64)) (probability : Float) :
    StripeIndex.byteSize (ofChunks pieces probability)
      = (pieces.map fun piece => (BlockFilter.ofValues
          (BlockFilter.bytesFor (widestStripe pieces) probability) piece).storedBytes).foldl
          (· + ·) 0 := by
  show (ofChunks pieces probability).filters.foldl _ 0 = _
  rw [ofChunks, List.foldl_toArray, List.foldl_map, List.foldl_map]

theorem mayContain_ofChunks (pieces : List (List Int64)) (probability : Float) (id : Nat)
    (value : Int64) :
    (ofChunks pieces probability).mayContain id value
      = ((pieces.map fun piece => (BlockFilter.ofValues
          (BlockFilter.bytesFor (widestStripe pieces) probability) piece).mayContain)[id]?.map
          (· value)).getD false := by
  rw [mayContain, ofChunks, List.getElem?_toArray, List.getElem?_map, List.getElem?_map]
  cases pieces[id]? <;> rfl

/-- Columns with the same values in their stripes have filters of the same sizes with the same
answers. -/
theorem build_congr (h : c.SameStripes stripeSize d)
    (hp : build c stripeSize probability = .ok p) :
    ∃ other, build d stripeSize probability = .ok other ∧
      StripeIndex.byteSize p = StripeIndex.byteSize other ∧
      ∀ id value, p.mayContain id value = other.mayContain id value := by
  obtain ⟨hsize, hrange, hfew, rfl⟩ := build_eq_ok_iff.1 hp
  refine ⟨_, build_eq_ok_iff.2 ⟨hsize, hrange, h.numStripes_eq ▸ hfew, rfl⟩, ?_, ?_⟩
  · rw [byteSize_ofChunks, byteSize_ofChunks, ← widestStripe_congr h hsize,
      h.map_chunks_congr hsize]
    intro xs ys _
    rw [BlockFilter.storedBytes, BlockFilter.storedBytes, BlockFilter.bytes_ofValues,
      BlockFilter.bytes_ofValues]
  · intro id value
    rw [mayContain_ofChunks, mayContain_ofChunks, ← widestStripe_congr h hsize,
      h.map_chunks_congr hsize fun _ _ => BlockFilter.mayContain_ofValues_congr _]

end Alike

end PerStripeBloom

/-! ## Bitmaps -/

namespace PerValueBitmap

variable {p other : PerValueBitmap} {stripes : Nat} {recorded : Nat → Int64 → Prop}

/-- The bitmap of a value that some stripe holds. -/
theorem Records.getElem?_eq_some (h : Records p stripes recorded) {id : Nat} {value : Int64}
    (hid : p.holds id value = true) :
    p.bitmaps[value]? = some (Bitmap.ofFn stripes fun id => p.holds id value) := by
  cases hvalue : p.bitmaps[value]? with
  | none => simp [holds, hvalue] at hid
  | some bitmap =>
    obtain ⟨hwf, hlen, -⟩ := h.kept hvalue
    have hholds : (fun id => p.holds id value) = bitmap.get := by
      funext id
      simp [holds, hvalue]
    rw [hholds, ← hlen]
    exact congrArg some hwf.eq_ofFn

/-- A value that no stripe holds has no bitmap, since a kept one has a bit that is set. -/
theorem Records.getElem?_eq_none (h : Records p stripes recorded) {value : Int64}
    (hnone : ¬∃ id, p.holds id value = true) : p.bitmaps[value]? = none := by
  cases hvalue : p.bitmaps[value]? with
  | none => rfl
  | some bitmap =>
    obtain ⟨-, -, id, -, hid⟩ := h.kept hvalue
    exact absurd ⟨id, by simp [holds, hvalue, hid]⟩ hnone

/-- Indexes that record the same pairs keep the same bitmaps. -/
theorem Records.equiv (h : Records p stripes recorded) (hother : Records other stripes recorded) :
    p.bitmaps.Equiv other.bitmaps := by
  have hholds : p.holds = other.holds := by
    funext id value
    exact Bool.eq_iff_iff.2 (h.holds_iff.trans hother.holds_iff.symm)
  apply Std.TreeMap.Equiv.of_forall_constGet?_eq
  intro value
  by_cases hsome : ∃ id, p.holds id value = true
  · obtain ⟨id, hid⟩ := hsome
    rw [h.getElem?_eq_some hid, hother.getElem?_eq_some (hholds ▸ hid), hholds]
  · rw [h.getElem?_eq_none hsome, hother.getElem?_eq_none (hholds ▸ hsome)]

/-- Columns with the same values in their stripes have the same bitmaps. -/
theorem build_congr {c d : Column} {stripeSize : Nat} (h : c.SameStripes stripeSize d)
    (hp : build c stripeSize = .ok p) :
    ∃ other, build d stripeSize = .ok other ∧
      StripeIndex.byteSize p = StripeIndex.byteSize other ∧
      ∀ id value, p.holds id value = other.holds id value := by
  obtain ⟨other, hother, hrecords⟩ := build_records d (stripeSize_pos_of_build hp)
  have hcRecords := records_of_build hp
  rw [← h.numStripes_eq] at hrecords
  simp only [← h.stripeContains_eq] at hrecords
  refine ⟨other, hother, (hcRecords.equiv hrecords).foldl_eq, ?_⟩
  intro id value
  exact Bool.eq_iff_iff.2 (hcRecords.holds_iff.trans hrecords.holds_iff.symm)

end PerValueBitmap

/-! ## All families -/

namespace Index

/-- Two indexes take the same space and give the same answers. -/
structure Alike (index other : Index) : Prop where
  byteSize_eq : StripeIndex.byteSize index = StripeIndex.byteSize other
  stripeContains_eq : ∀ id value,
    StripeIndex.stripeContains index id value = StripeIndex.stripeContains other id value
  qualifyingStripes_eq : ∀ value n,
    StripeIndex.qualifyingStripes index value n = StripeIndex.qualifyingStripes other value n

variable {c d : Column} {stripeSize : Nat} {config : IndexConfig} {index : Index}

theorem Built.alike {other : Index} (h : Built c stripeSize config index)
    (hother : Built d stripeSize config other)
    (hbytes : StripeIndex.byteSize index = StripeIndex.byteSize other)
    (hcontains : ∀ id value,
      StripeIndex.stripeContains index id value = StripeIndex.stripeContains other id value) :
    index.Alike other where
  byteSize_eq := hbytes
  stripeContains_eq := hcontains
  qualifyingStripes_eq value n := by
    rw [h.qualifyingStripes_eq, hother.qualifyingStripes_eq]
    simp only [hcontains]

/-- Columns with the same values in their stripes can be indexed alike. -/
theorem exists_alike (hindex : config.build c stripeSize = .ok index)
    (h : c.SameStripes stripeSize d) :
    ∃ other, config.build d stripeSize = .ok other ∧ index.Alike other := by
  have hbuilt := built_of_build hindex
  cases hbuilt with
  | zoneMap hz =>
    have hd := ZoneMap.build_congr h hz
    refine ⟨_, except_bind_eq_ok.2 ⟨_, hd, rfl⟩, (Built.zoneMap hz).alike (.zoneMap hd) rfl ?_⟩
    exact fun _ _ => rfl
  | perStripeBloom hp =>
    obtain ⟨other, hd, hbytes, hcontains⟩ := PerStripeBloom.build_congr h hp
    exact ⟨_, except_bind_eq_ok.2 ⟨_, hd, rfl⟩,
      (Built.perStripeBloom hp).alike (.perStripeBloom hd) hbytes hcontains⟩
  | perValueBitmap hp =>
    obtain ⟨other, hd, hbytes, hcontains⟩ := PerValueBitmap.build_congr h hp
    exact ⟨_, except_bind_eq_ok.2 ⟨_, hd, rfl⟩,
      (Built.perValueBitmap hp).alike (.perValueBitmap hd) hbytes hcontains⟩

/-- An index depends on the sets of values of the stripes only.  Where it can be built for one
column it can be built for every other one with the same values in its stripes, and both take
the same space and give the same answers.  In particular the rows of a stripe may be put into
any order. -/
theorem build_alike (hindex : config.build c stripeSize = .ok index) :
    (∀ d, c.SameStripes stripeSize d →
      ∃ other, config.build d stripeSize = .ok other ∧ index.Alike other) ∧
    ∀ rows : Array Nat, rows.toList.Perm (List.range c.numRows) →
      (∀ i row : Nat, rows[i]? = some row → row / stripeSize = i / stripeSize) →
      ∃ d other, c.reorder rows = .ok d ∧ config.build d stripeSize = .ok other ∧
        index.Alike other := by
  refine ⟨fun d h => exists_alike hindex h, ?_⟩
  intro rows hperm hstay
  have hsize := (built_of_build hindex).stripeSize_pos
  obtain ⟨other, hother, halike⟩ := exists_alike hindex (c.sameStripes_pick hsize hperm hstay)
  refine ⟨_, other, Column.reorder_of_lt ?_, hother, halike⟩
  intro row hrow
  exact List.mem_range.1 (hperm.mem_iff.1 (Array.mem_toList_iff.2 hrow))

/-- Stripes of three rows: 7, 8, 8 and 8, 7, 7 are the same set of values, and so are 7, 8, 8
and the same rows turned around. -/
theorem build_alike_repeated : ∃ index other turned column,
    IndexConfig.perValueBitmap.build (Column.ofValues "key" #[7, 8, 8, 9]) 3 = .ok index ∧
    IndexConfig.perValueBitmap.build (Column.ofValues "other" #[8, 7, 7, 9]) 3 = .ok other ∧
    index.Alike other ∧
    (Column.ofValues "key" #[7, 8, 8, 9]).reorder #[2, 1, 0, 3] = .ok column ∧
    IndexConfig.perValueBitmap.build column 3 = .ok turned ∧ index.Alike turned := by
  obtain ⟨bitmaps, hbitmaps, -⟩ :=
    PerValueBitmap.build_records (Column.ofValues "key" #[7, 8, 8, 9]) (by decide : 0 < 3)
  have hindex : IndexConfig.perValueBitmap.build (Column.ofValues "key" #[7, 8, 8, 9]) 3
      = .ok (.perValueBitmap bitmaps) := except_bind_eq_ok.2 ⟨_, hbitmaps, rfl⟩
  have hsame : (Column.ofValues "key" #[7, 8, 8, 9]).SameStripes 3
      (Column.ofValues "other" #[8, 7, 7, 9]) := by
    refine ⟨rfl, ?_⟩
    intro id value
    rw [Bool.eq_iff_iff, Column.stripeContains_iff_mem, Column.stripeContains_iff_mem,
      Column.toList_stripe, Column.toList_stripe]
    match id with
    | 0 =>
      show value ∈ [7, 8, 8] ↔ value ∈ [8, 7, 7]
      simp only [List.mem_cons, List.not_mem_nil, or_false]
      tauto
    | 1 => rfl
    | id + 2 =>
      have hpast : 4 ≤ 3 * (id + 2) := by omega
      rw [List.drop_of_length_le hpast, List.drop_of_length_le hpast]
  have hstay : ∀ i row : Nat, #[2, 1, 0, 3][i]? = some row → row / 3 = i / 3 := by
    intro i row hrow
    obtain ⟨hlt, rfl⟩ := Array.getElem?_eq_some_iff.1 hrow
    have hall : ∀ i : Fin 4, (#[2, 1, 0, 3] : Array Nat)[i] / 3 = i.val / 3 := by decide
    exact hall ⟨i, hlt⟩
  obtain ⟨hcolumns, hrows⟩ := build_alike hindex
  obtain ⟨other, hother, halike⟩ := hcolumns _ hsame
  obtain ⟨column, turned, hcolumn, hturned, hturnedAlike⟩ :=
    hrows #[2, 1, 0, 3] (by decide) hstay
  exact ⟨_, other, turned, column, hindex, hother, halike, hcolumn, hturned, hturnedAlike⟩

end Index

end StripePruning
