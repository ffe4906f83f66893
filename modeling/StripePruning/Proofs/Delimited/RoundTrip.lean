import StripePruning.Proofs.Delimited.Fields
import StripePruning.Proofs.Table.Rows

/-!
# Tables that are read back

A table is written as a line with the names of its columns and a line for each row.

* `Table.sheet` are the records of such a text (`Table.ofBytes_withHeader`), and
  `Table.column_sheet` says that a column of the sheet has the values of the column of the table.
* `Column.renew` is a column made anew of its values.  It has the different values of its rows,
  which a column from which rows were left out has not (`Column.distinctValues_renew_iff`).
* `Table.load_withHeader` says what is loaded: the columns with the requested names, each of them
  made anew.
-/

namespace StripePruning

namespace Delimited

/-- The items at the place of a column are its values, however they are written. -/
theorem cellsAt_tuples {α : Type} [Inhabited α] {t : Table} (ht : t.Rectangular) {k : Nat}
    {c : Column} (hc : t.columns[k]? = some c) (write : Int64 → α) :
    cellsAt k (t.tuples.map fun values => values.map write) = c.values.toList.map write := by
  rw [cellsAt, Table.toList_values ht hc, List.map_map, List.map_map]
  refine List.map_congr_left fun values hvalues => ?_
  obtain ⟨hk, -⟩ := List.getElem?_eq_some_iff.mp hc
  rw [← Table.length_of_mem_tuples hvalues] at hk
  simp [hk]

end Delimited

namespace Column

/-- The column that is made anew of the name and the values of a column. -/
def renew (c : Column) : Column :=
  ofValues c.name c.values

/-- A column made anew has the different values of its rows.  These are all that the column had,
unless rows were left out of it. -/
theorem distinctValues_renew_iff (c : Column) :
    c.renew.distinctValues = c.distinctValues ↔
      ∀ value, c.contains value = true ↔ value ∈ c.values := by
  constructor
  · intro h value
    have hmem : value ∈ c.renew.distinctValues ↔ value ∈ c.distinctValues := by rw [h]
    rw [distinctValues, distinctValues, Std.TreeSet.mem_toList, Std.TreeSet.mem_toList] at hmem
    exact hmem.symm.trans contains_ofValues
  · intro h
    refine Std.TreeSet.Equiv.toList_eq (Std.TreeSet.Equiv.of_forall_contains_eq fun value => ?_)
    rw [Bool.eq_iff_iff]
    exact contains_ofValues.trans (h value).symm

end Column

/-! ## Sheets of tables -/

namespace Table

open Delimited

/-- The text of a table below the names of its columns. -/
def withHeader (t : Table) : String :=
  ",".intercalate (t.columns.map Column.name) ++ "\n" ++ t.toDelimited

/-- The names and the rows of a table as records. -/
def sheet (t : Table) : Sheet where
  header := t.columns.map fun c => fieldOf c.name
  rows := t.tuples.map fun values => values.map fun v => fieldOf (toString v)
  isBlank := false

/-- A name of ASCII letters, digits and underscores. -/
structure IsWord (name : String) : Prop where
  ne_empty : name ≠ ""
  isWord : ∀ c ∈ name.toList, c.isAlphanum ∨ c = '_'

instance (name : String) : Decidable (IsWord name) :=
  decidable_of_iff (name ≠ "" ∧ name.toList.all (fun c => c.isAlphanum || c = '_') = true) <| by
    simp only [List.all_eq_true, Bool.or_eq_true, decide_eq_true_eq]
    exact ⟨fun h => ⟨h.1, h.2⟩, fun h => ⟨h.ne_empty, h.isWord⟩⟩

variable {t : Table} {c : Column} {k : Nat} {name : String} {path : RawText}

theorem toNat_of_isAlphanum {c : Char} (h : c.isAlphanum) : 48 ≤ c.toNat ∧ c.toNat ≤ 122 := by
  -- Upper case, lower case and digits.
  have hcases : c.isAlphanum = (decide (65 ≤ c.val ∧ c.val ≤ 90)
      || (decide (97 ≤ c.val) && decide (c.val ≤ 122))
      || (decide (48 ≤ c.val) && decide (c.val ≤ 57))) := rfl
  rw [hcases] at h
  simp only [Bool.or_eq_true, Bool.and_eq_true, decide_eq_true_eq, UInt32.le_iff_toNat_le,
    UInt32.reduceToNat, Char.toNat_val] at h
  omega

theorem plainField_of_isWord (h : IsWord name) : PlainField (fieldOf name) := by
  refine plainField_fieldOf h.ne_empty fun c hc => ?_
  cases h.isWord c hc with
  | inl halphanum =>
    obtain ⟨hlow, hhigh⟩ := toNat_of_isAlphanum halphanum
    omega
  | inr hunderscore =>
    rw [hunderscore]
    decide

/-- A row as a record. -/
theorem bytesOf_rowText (t : Table) (row : Nat) :
    bytesOf (t.rowText row ++ "\n").toList
      = lineOf ((t.tuple row).map fun v => fieldOf (toString v)) := by
  rw [rowText, bytesOf_line, tuple, List.map_map, List.map_map]
  rfl

theorem bytesOf_withHeader (t : Table) :
    bytesOf t.withHeader.toList = (t.sheet.header :: t.sheet.rows).flatMap lineOf := by
  have hrows : bytesOf t.toDelimited.toList = t.sheet.rows.flatMap lineOf := by
    rw [toDelimited, String.toList_join, sheet, tuples, List.map_map, List.flatMap_map,
      List.flatMap_map, bytesOf, List.flatMap_assoc]
    exact List.flatMap_congr fun row _ => t.bytesOf_rowText row
  rw [withHeader, String.toList_append, bytesOf_append, bytesOf_line, hrows, List.flatMap_cons,
    List.map_map]
  rfl

theorem ofBytes_withHeader (hne : t.columns ≠ []) (hnames : ∀ c ∈ t.columns, IsWord c.name) :
    Sheet.ofBytes (bytesOf t.withHeader.toList) = t.sheet := by
  rw [bytesOf_withHeader]
  refine Sheet.ofBytes_lines fun record hrecord => ?_
  cases List.mem_cons.mp hrecord with
  | inl hheader =>
    rw [hheader]
    refine ⟨mt List.map_eq_nil_iff.mp hne, fun field hfield => ?_⟩
    obtain ⟨c, hc, rfl⟩ := List.mem_map.mp hfield
    exact plainField_of_isWord (hnames c hc)
  | inr hrow =>
    obtain ⟨values, hvalues, rfl⟩ := List.mem_map.mp hrow
    constructor
    · intro hnil
      have hlength := length_of_mem_tuples hvalues
      rw [List.map_eq_nil_iff.mp hnil] at hlength
      exact hne (List.length_eq_zero_iff.mp hlength.symm)
    · intro field hfield
      obtain ⟨v, -, rfl⟩ := List.mem_map.mp hfield
      exact plainField_toString v

theorem fits_sheet {rows : List Record} (hrows : ∀ record ∈ rows, record ∈ t.sheet.rows) :
    t.sheet.fits rows = true := by
  unfold Sheet.fits
  rw [List.all_eq_true]
  intro record hrecord
  obtain ⟨values, hvalues, rfl⟩ := List.mem_map.mp (hrows record hrecord)
  simp [sheet, length_of_mem_tuples hvalues]

theorem sample?_sheet (t : Table) :
    t.sheet.sample? = some
      { header := t.columns.map Column.name
        rows := (t.tuples.take sampleRows).map fun values => values.map toString } := by
  have hheader : t.sheet.header.mapM textOf? = some (t.columns.map Column.name) := by
    rw [← mapM_textOf?, List.map_map]
    rfl
  have hrows : (t.sheet.rows.take sampleRows).mapM (fun row => row.mapM textOf?)
      = some ((t.tuples.take sampleRows).map fun values => values.map toString) := by
    rw [← mapM_mapM_textOf?, sheet, ← List.map_take, List.map_map]
    simp only [Function.comp_def, List.map_map]
  unfold Sheet.sample?
  dsimp only
  rw [fits_sheet fun record => List.mem_of_mem_take, if_pos rfl, hheader, hrows]
  rfl

theorem exists_sample (t : Table) : ∃ sample, t.sheet.sample? = some sample ∧
    sample.header = t.columns.map Column.name :=
  ⟨_, t.sample?_sheet, rfl⟩

theorem isSound_sheet (t : Table) : t.sheet.isSound = true := by
  unfold Sheet.isSound
  rw [fits_sheet fun record => id, Bool.true_and, Bool.and_eq_true, List.all_eq_true]
  refine ⟨fun rows hrows => isText_of_fieldOf fun record hrecord field hfield => ?_, rfl⟩
  have hmem : record ∈ t.sheet.rows := by
    rw [← Column.flatten_chunks (show 0 < batchRows by decide) t.sheet.rows]
    exact List.mem_flatten_of_mem hrows hrecord
  obtain ⟨values, -, rfl⟩ := List.mem_map.mp hmem
  obtain ⟨v, -, rfl⟩ := List.mem_map.mp hfield
  exact ⟨toString v, rfl⟩

/-- A column of the sheet has the values of the column of the table. -/
theorem column_sheet (ht : t.Rectangular) (hc : t.columns[k]? = some c) {sample : Sample}
    (hsample : t.sheet.sample? = some sample) (name : String) :
    t.sheet.column name (sample.cellType k) k = .ok (Column.ofValues name c.values) := by
  have htype : sample.cellType k
      = CellType.ofCells ((c.values.toList.take sampleRows).map toString) := by
    rw [sample?_sheet] at hsample
    obtain rfl := Option.some_inj.mp hsample
    rw [Sample.cellType]
    dsimp only
    rw [List.map_take, List.map_take, ← cellsAt_tuples ht hc]
    exact congrArg CellType.ofCells List.map_take
  rw [Sheet.column_eq, htype, sheet, cellsAt_tuples ht hc, push_toString (by decide)]
  rfl

/-! ## Loading -/

/-- A name of a column leads to the same column in the table and in the header. -/
theorem exists_position (h : name ∈ t.columns.map Column.name) :
    ∃ k c, (t.columns.map Column.name).findIdx? (· == name) = some k ∧
      t.columns[k]? = some c ∧ t.column name = .ok c ∧ c.name = name := by
  obtain ⟨d, hd, hname⟩ := List.mem_map.mp h
  have hexists : ∃ c ∈ t.columns, (c.name == name) = true := ⟨d, hd, beq_iff_eq.mpr hname⟩
  have hposition := List.findIdx?_eq_some_of_exists hexists
  obtain ⟨hk, hc, -⟩ := List.findIdx?_eq_some_iff_getElem.mp hposition
  refine ⟨_, _, ?_, List.getElem?_eq_getElem hk, ?_, beq_iff_eq.mp hc⟩
  · rw [List.findIdx?_map]
    exact hposition
  · unfold column
    rw [List.find?_eq_bind_findIdx?_getElem?, hposition, Option.bind_some,
      List.getElem?_eq_getElem hk]

theorem of_column_eq_ok (h : t.column name = .ok c) : c ∈ t.columns ∧ c.name = name := by
  unfold column at h
  split at h
  · rename_i d hfind
    obtain rfl := Except.ok.inj h
    have hname := List.find?_some hfind
    exact ⟨List.mem_of_find?_eq_some hfind, beq_iff_eq.mp hname⟩
  · cases h

/-- A table that was written below the names of its columns is read back: the columns with the
requested names in their order, each made anew of its values. -/
theorem load_eq_renew {files : Files} {requested : List String} (ht : t.Rectangular)
    (hne : t.columns ≠ []) (hnames : ∀ c ∈ t.columns, IsWord c.name)
    (hfile : files.entry path = .ok (.file t.withHeader.toUTF8))
    (hrequested : ∀ name ∈ requested, name ∈ t.columns.map Column.name) :
    ∃ chosen, requested.mapM t.column = .ok chosen ∧ chosen.map Column.name = requested ∧
      load files path requested
        = .ok { name := fileStem path, columns := chosen.map Column.renew } := by
  obtain ⟨sample, hsample, hheader⟩ := t.exists_sample
  let read : String × Nat → Except Error Column := fun place =>
    t.sheet.column place.1 (sample.cellType place.2) place.2
  have hstep : ∀ name ∈ requested, ∃ k c, sample.position path name = .ok k ∧
      t.column name = .ok c ∧ read (name, k) = .ok c.renew := by
    intro name hname
    obtain ⟨k, c, hposition, hc, hcolumn, rfl⟩ := exists_position (hrequested name hname)
    refine ⟨k, c, ?_, hcolumn, column_sheet ht hc hsample c.name⟩
    unfold Sample.position
    rw [hheader, hposition]
  obtain ⟨positions, chosen, hpositions, hchosen, hcolumns⟩ :=
    mapM_zip_ok read Column.renew hstep
  refine ⟨chosen, hchosen, map_of_mapM_ok (fun _ _ h => (of_column_eq_ok h).2) hchosen, ?_⟩
  have hrows : ∀ c ∈ chosen.map Column.renew, c.numRows = t.numRows := by
    intro c hc
    obtain ⟨d, hd, rfl⟩ := List.mem_map.mp hc
    obtain ⟨name, -, hname⟩ := exists_of_mem_mapM_ok hchosen hd
    exact ht d (of_column_eq_ok hname).1
  unfold load
  rw [hfile]
  dsimp only
  rw [data_toUTF8, ofBytes_withHeader hne hnames]
  unfold Sheet.table
  rw [hsample]
  dsimp only
  rw [hpositions, t.isSound_sheet]
  show (((requested.zip positions).mapM read) >>= _) = _
  rw [hcolumns]
  exact ofColumns_of_numRows (fileStem path) hrows

/-- What is read back of a table that was written below the names of its columns: the columns with
the requested names in their order, with their values.  The different values of each are those of
its rows.  The column of the table has the same ones exactly if it has those of its rows, as it does
if its rows were only put into other orders. -/
theorem load_withHeader {files : Files} {requested : List String} (ht : t.Rectangular)
    (hne : t.columns ≠ []) (hnames : ∀ c ∈ t.columns, IsWord c.name)
    (hfile : files.entry path = .ok (.file t.withHeader.toUTF8))
    (hrequested : ∀ name ∈ requested, name ∈ t.columns.map Column.name) :
    ∃ chosen loaded, requested.mapM t.column = .ok chosen ∧
      load files path requested = .ok loaded ∧
      loaded.columns.map Column.name = requested ∧
      loaded.columns.map Column.values = chosen.map Column.values ∧
      List.Forall₂ (fun c found : Column => c ∈ t.columns ∧
        (∀ value, found.contains value = true ↔ value ∈ c.values) ∧
        (found.distinctValues = c.distinctValues ↔
          ∀ value, c.contains value = true ↔ value ∈ c.values) ∧
        (c.Permuted → found.distinctValues = c.distinctValues)) chosen loaded.columns := by
  obtain ⟨chosen, hchosen, hsame, hload⟩ :=
    load_eq_renew ht hne hnames hfile hrequested
  refine ⟨chosen, _, hchosen, hload, ?names, ?values, ?distinct⟩
  case names =>
    rw [← hsame, List.map_map]
    rfl
  case values =>
    rw [List.map_map]
    rfl
  case distinct =>
    rw [List.forall₂_map_right_iff, List.forall₂_same]
    intro c hc
    obtain ⟨name, -, hname⟩ := exists_of_mem_mapM_ok hchosen hc
    exact ⟨(of_column_eq_ok hname).1, fun value => Column.contains_ofValues,
      c.distinctValues_renew_iff,
      fun hpermuted => c.distinctValues_renew_iff.mpr fun value => hpermuted.contains_iff⟩

/-- Two columns with the least and the greatest values, one of them requested twice. -/
theorem load_withHeader_extremes :
    let a := Column.ofValues "a" #[Column.nullValue, Int64.minValue + 1, 0]
    let b := Column.ofValues "b_2" #[Int64.maxValue, 10, 10]
    let t : Table := { name := "t", columns := [a, b] }
    let files : Files := { entry := fun _ => .ok (.file t.withHeader.toUTF8) }
    ∃ loaded, load files "t.csv" ["b_2", "a", "b_2"] = .ok loaded ∧
      loaded.columns.map Column.name = ["b_2", "a", "b_2"] ∧
      loaded.columns.map Column.values = [b.values, a.values, b.values] ∧
      [b, a, b].map Column.distinctValues = loaded.columns.map Column.distinctValues := by
  intro a b t files
  have ht : t.Rectangular := by
    unfold Rectangular
    decide
  have hnames : ∀ c ∈ t.columns, IsWord c.name := by
    intro c hc
    rcases List.mem_pair.mp hc with rfl | rfl
    · show IsWord "a"
      decide
    · show IsWord "b_2"
      decide
  have hfile : files.entry "t.csv" = .ok (.file t.withHeader.toUTF8) := rfl
  have hrequested : ∀ name ∈ ["b_2", "a", "b_2"], name ∈ t.columns.map Column.name := by decide
  obtain ⟨chosen, loaded, hchosen, hload, hnames, hvalues, hcolumns⟩ :=
    load_withHeader ht (List.cons_ne_nil a [b]) hnames hfile hrequested
  rw [show ["b_2", "a", "b_2"].mapM t.column = .ok [b, a, b] from rfl] at hchosen
  obtain rfl := Except.ok.inj hchosen
  refine ⟨loaded, hload, hnames, hvalues, ?_⟩
  have hpermuted : ∀ c ∈ [b, a, b], c.Permuted := by
    intro c hc
    simp only [List.mem_cons, List.not_mem_nil, or_false] at hc
    rcases hc with rfl | rfl | rfl <;> exact .ofValues _ _
  rw [← List.forall₂_eq_eq_eq, List.forall₂_map_left_iff, List.forall₂_map_right_iff]
  refine ((List.forall₂_and_left _ _).mpr ⟨hpermuted, hcolumns⟩).imp ?_
  intro c found h
  exact (h.2.2.2.2 h.1).symm

/-- A column from which a row was left out keeps the value of that row among its different values,
but the column that is read back does not have it. -/
theorem distinctValues_of_missing_row :
    let c : Column := { Column.ofValues "c" #[1, 2] with values := #[1] }
    let t : Table := { name := "t", columns := [c] }
    let files : Files := { entry := fun _ => .ok (.file t.withHeader.toUTF8) }
    (Table.ofColumns "t" [Column.ofValues "c" #[1, 2]] >>= (·.reorder #[0])) = .ok t ∧
      t.withHeader = "c\n1\n" ∧
      ∃ loaded, load files "t.csv" ["c"] = .ok loaded ∧
        t.columns.map Column.distinctValues = [[1, 2]] ∧
        loaded.columns.map Column.distinctValues = [[1]] := by
  intro c t files
  have ht : t.Rectangular := by
    unfold Rectangular
    decide
  have hnames : ∀ d ∈ t.columns, IsWord d.name := by
    intro d hd
    obtain rfl := List.mem_singleton.mp hd
    show IsWord "c"
    decide
  have hfile : files.entry "t.csv" = .ok (.file t.withHeader.toUTF8) := rfl
  have hrequested : ∀ name ∈ ["c"], name ∈ t.columns.map Column.name := by decide
  obtain ⟨chosen, hchosen, -, hload⟩ :=
    load_eq_renew ht (List.cons_ne_nil c []) hnames hfile hrequested
  rw [show ["c"].mapM t.column = .ok [c] from rfl] at hchosen
  obtain rfl := Except.ok.inj hchosen
  have hcolumn : (Column.ofValues "c" #[1, 2]).reorder #[0] = .ok c := by
    simp [Column.reorder, Column.numRows, Column.ofValues, c]
  have hreorder : (Table.ofColumns "t" [Column.ofValues "c" #[1, 2]] >>= (·.reorder #[0]))
      = .ok t := by
    show Table.reorder { name := "t", columns := [Column.ofValues "c" #[1, 2]] } #[0] = .ok t
    rw [reorder, List.mapM_cons, hcolumn]
    rfl
  refine ⟨hreorder, by decide, _, hload, by decide, by decide⟩

end Table

end StripePruning
