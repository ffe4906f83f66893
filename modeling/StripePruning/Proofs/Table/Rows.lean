import StripePruning.Proofs.Column.Rows
import StripePruning.Table.Basic

/-!
# Rows of a table

A table keeps its columns, not its rows.  This module gives the rows and says
how columns are made of the rows of other columns.

* `Column.pick` and `Table.pick` take the rows with given numbers, as a
  reordering does.
* `tuples` are the rows.  `tuples_pick` says which rows are picked, and `ext_tuples`
  that a table is given by its rows and the heads of its columns.
* `Column.Permuted` are the columns whose rows were only put into other orders, and
  `Permuted.contains_iff` says that their set of different values is that of their rows.
* `Fresh` are the tables that are made of columns of given values.
-/

namespace StripePruning

namespace Column

/-- The column whose row `i` is row `rows[i]` of this one. -/
def pick (c : Column) (rows : Array Nat) : Column :=
  { c with values := rows.map fun row => c.values.getD row nullValue }

@[simp] theorem name_pick (c : Column) (rows : Array Nat) : (c.pick rows).name = c.name := rfl

@[simp] theorem distinct_pick (c : Column) (rows : Array Nat) :
    (c.pick rows).distinct = c.distinct := rfl

@[simp] theorem cardinality_pick (c : Column) (rows : Array Nat) :
    (c.pick rows).cardinality = c.cardinality := rfl

@[simp] theorem numRows_pick (c : Column) (rows : Array Nat) :
    (c.pick rows).numRows = rows.size := by
  simp [pick, numRows]

theorem getD_values_pick (c : Column) {rows : Array Nat} {i : Nat} (hi : i < rows.size) :
    (c.pick rows).values.getD i nullValue = c.values.getD (rows.getD i 0) nullValue := by
  simp [pick, hi]

theorem pick_range (c : Column) : c.pick (Array.range c.numRows) = c := by
  have hvalues : (Array.range c.numRows).map (fun row => c.values.getD row nullValue)
      = c.values := by
    apply Array.ext
    · simp [numRows]
    · intro i hi hsize
      simp [hsize]
  rw [pick, hvalues]

theorem pick_pick (c : Column) {rows others : Array Nat}
    (h : ∀ row, row ∈ others → row < rows.size) :
    (c.pick rows).pick others = c.pick (others.map fun i => rows.getD i 0) := by
  have hvalues : others.map (fun i => (c.pick rows).values.getD i nullValue)
      = (others.map fun i => rows.getD i 0).map fun row => c.values.getD row nullValue := by
    rw [Array.map_map]
    apply Array.map_congr_left
    intro i hi
    exact getD_values_pick c (h i hi)
  unfold pick at hvalues ⊢
  rw [hvalues]

/-- Picking all rows once, in any order, keeps the values. -/
theorem mem_values_pick_of_perm (c : Column) {rows : Array Nat}
    (h : rows.toList.Perm (List.range c.numRows)) {value : Int64} :
    value ∈ (c.pick rows).values ↔ value ∈ c.values := by
  have hvalues : (c.pick rows).values.toList.Perm
      (c.pick (Array.range c.numRows)).values.toList := by
    simp only [pick, Array.toList_map, Array.toList_range]
    exact h.map _
  rw [pick_range] at hvalues
  rw [← Array.mem_toList_iff, hvalues.mem_iff, Array.mem_toList_iff]

/-- A reordering by rows that are there picks them. -/
theorem reorder_of_lt {c : Column} {rows : Array Nat} (h : ∀ row, row ∈ rows → row < c.numRows) :
    c.reorder rows = .ok (c.pick rows) := by
  have hfind : rows.find? (c.numRows ≤ ·) = none := by
    rw [Array.find?_eq_none]
    intro row hrow
    have hlt := h row hrow
    simp only [decide_eq_true_eq]
    omega
  rw [reorder, hfind]
  rfl

/-- A reordering fails at a row that is not there. -/
theorem reorder_of_le {c : Column} {rows : Array Nat} (h : ∃ row, row ∈ rows ∧ c.numRows ≤ row) :
    ∃ row, row ∈ rows ∧ c.numRows ≤ row ∧
      c.reorder rows = .error (.rowOutOfRange row c.numRows) := by
  cases hfind : rows.find? (c.numRows ≤ ·) with
  | none =>
    obtain ⟨row, hrow, hle⟩ := h
    have hnot := Array.find?_eq_none.1 hfind row hrow
    simp [hle] at hnot
  | some row =>
    have hle := Array.find?_some hfind
    refine ⟨row, Array.mem_of_find?_eq_some hfind, by simpa using hle, ?_⟩
    rw [reorder, hfind]

/-! ## Columns that keep their rows -/

/-- The columns that come from given values by putting all rows into other orders. -/
inductive Permuted : Column → Prop where
  | ofValues (name : String) (values : Array Int64) : Permuted (Column.ofValues name values)
  | reorder {c c' : Column} {rows : Array Nat} (hc : Permuted c)
      (hperm : rows.toList.Perm (List.range c.numRows)) (hrows : c.reorder rows = .ok c') :
      Permuted c'

/-- The set of different values of such a column is that of its rows. -/
theorem Permuted.contains_iff {c : Column} (hc : c.Permuted) {value : Int64} :
    c.contains value = true ↔ value ∈ c.values := by
  induction hc with
  | ofValues name values => exact contains_ofValues
  | @reorder c c' rows _ hperm hrows ih =>
    have hlt : ∀ row, row ∈ rows → row < c.numRows := by
      intro row hrow
      rwa [← Array.mem_toList_iff, hperm.mem_iff, List.mem_range] at hrow
    rw [reorder_of_lt hlt] at hrows
    obtain rfl := Except.ok.inj hrows
    rw [c.mem_values_pick_of_perm hperm]
    exact ih

end Column

namespace Table

/-! ## Tables that can be made -/

/-- All columns have the same number of rows. -/
def Rectangular (t : Table) : Prop :=
  ∀ c, c ∈ t.columns → c.numRows = t.numRows

/-- The different values that each column keeps are those of its rows. -/
def Exact (t : Table) : Prop :=
  ∀ c, c ∈ t.columns → ∀ value, c.contains value = true ↔ value ∈ c.values

/-- The tables that are made of columns of given values. -/
inductive Fresh : Table → Prop where
  | ofColumns {name : String} {columns : List Column} {t : Table}
      (hcolumns : ∀ c, c ∈ columns → ∃ label values, c = Column.ofValues label values)
      (ht : Table.ofColumns name columns = .ok t) : Fresh t

theorem rectangular_of_ofColumns {name : String} {columns : List Column} {t : Table}
    (h : Table.ofColumns name columns = .ok t) :
    t.columns = columns ∧ t.Rectangular := by
  unfold Table.ofColumns at h
  cases columns with
  | nil =>
    obtain rfl := Except.ok.inj h
    exact ⟨rfl, by simp [Rectangular]⟩
  | cons first rest =>
    dsimp only at h
    cases hfind : (first :: rest).find? (fun c => c.numRows ≠ first.numRows) with
    | some c =>
      rw [hfind] at h
      cases h
    | none =>
      rw [hfind] at h
      obtain rfl := Except.ok.inj h
      refine ⟨rfl, ?_⟩
      intro c hc
      have hnot := List.find?_eq_none.1 hfind c hc
      simpa [numRows] using hnot

/-- Columns with the same number of rows make a table. -/
theorem ofColumns_of_numRows (name : String) {columns : List Column} {rows : Nat}
    (h : ∀ c, c ∈ columns → c.numRows = rows) :
    Table.ofColumns name columns = .ok { name, columns } := by
  unfold Table.ofColumns
  cases columns with
  | nil => rfl
  | cons first rest =>
    have hfind : (first :: rest).find? (fun c => c.numRows ≠ first.numRows) = none := by
      rw [List.find?_eq_none]
      intro c hc
      simp [h c hc, h first List.mem_cons_self]
    dsimp only
    rw [hfind]

theorem Fresh.rectangular {t : Table} (ht : t.Fresh) : t.Rectangular := by
  cases ht with
  | ofColumns _ h => exact (rectangular_of_ofColumns h).2

theorem Fresh.exact {t : Table} (ht : t.Fresh) : t.Exact := by
  cases ht with
  | ofColumns hcolumns h =>
    intro c hc value
    rw [(rectangular_of_ofColumns h).1] at hc
    obtain ⟨label, values, rfl⟩ := hcolumns c hc
    exact Column.contains_ofValues

/-! ## Rows -/

/-- The values of a row, one for each column. -/
def tuple (t : Table) (row : Nat) : List Int64 :=
  t.columns.map fun c => c.values.getD row Column.nullValue

/-- The rows in their order. -/
def tuples (t : Table) : List (List Int64) :=
  (List.range t.numRows).map t.tuple

@[simp] theorem length_tuple (t : Table) (row : Nat) : (t.tuple row).length = t.columns.length := by
  simp [tuple]

@[simp] theorem length_tuples (t : Table) : t.tuples.length = t.numRows := by
  simp [tuples]

theorem length_of_mem_tuples {t : Table} {values : List Int64} (h : values ∈ t.tuples) :
    values.length = t.columns.length := by
  obtain ⟨row, -, rfl⟩ := List.mem_map.1 h
  exact t.length_tuple row

theorem numRows_of_columns_eq_nil {t : Table} (h : t.columns = []) : t.numRows = 0 := by
  simp [numRows, h]

theorem tuples_of_columns_eq_nil {t : Table} (h : t.columns = []) : t.tuples = [] := by
  simp [tuples, numRows_of_columns_eq_nil h]

/-- The values of a column are found at its place in every row. -/
theorem toList_values {t : Table} (ht : t.Rectangular) {k : Nat} {c : Column}
    (hc : t.columns[k]? = some c) :
    c.values.toList = t.tuples.map fun values => values.getD k Column.nullValue := by
  have hrows : c.values.size = t.numRows := ht c (List.mem_of_getElem? hc)
  apply List.ext_getElem
  · simp [hrows]
  · intro i hi hrow
    have hi' : i < c.values.size := by simpa using hi
    simp [tuples, tuple, hc, hi']

/-- Tables with the same rows and the same heads of columns are equal. -/
theorem ext_tuples {t u : Table} (ht : t.Rectangular) (hu : u.Rectangular)
    (hname : t.name = u.name)
    (hheads : t.columns.map (fun c => (c.name, c.distinct))
      = u.columns.map fun c => (c.name, c.distinct))
    (htuples : t.tuples = u.tuples) : t = u := by
  have hcolumns : t.columns = u.columns := by
    apply List.ext_getElem?
    intro k
    have hhead := congrArg (·[k]?) hheads
    simp only [List.getElem?_map] at hhead
    cases hc : t.columns[k]? with
    | none =>
      rw [hc] at hhead
      cases hd : u.columns[k]? with
      | none => rfl
      | some d => simp [hd] at hhead
    | some c =>
      cases hd : u.columns[k]? with
      | none => simp [hc, hd] at hhead
      | some d =>
        have hvalues : c.values.toList = d.values.toList := by
          rw [toList_values ht hc, toList_values hu hd, htuples]
        have harray : c.values = d.values := Array.toList_inj.1 hvalues
        have hheadEq : c.name = d.name ∧ c.distinct = d.distinct := by
          simpa [hc, hd] using hhead
        cases c
        cases d
        simp_all
  cases t
  cases u
  simp_all

/-! ## Picked rows -/

/-- The table whose row `i` is row `rows[i]` of this one. -/
def pick (t : Table) (rows : Array Nat) : Table :=
  { t with columns := t.columns.map (·.pick rows) }

@[simp] theorem name_pick (t : Table) (rows : Array Nat) : (t.pick rows).name = t.name := rfl

@[simp] theorem columns_pick (t : Table) (rows : Array Nat) :
    (t.pick rows).columns = t.columns.map (·.pick rows) := rfl

theorem pick_of_columns_eq_nil {t : Table} (h : t.columns = []) (rows : Array Nat) :
    t.pick rows = t := by
  cases t
  simp_all [pick]

theorem numRows_pick {t : Table} (hne : t.columns ≠ []) (rows : Array Nat) :
    (t.pick rows).numRows = rows.size := by
  cases hcolumns : t.columns with
  | nil => exact absurd hcolumns hne
  | cons first rest => simp [numRows, hcolumns]

theorem numRows_pick_le (t : Table) (rows : Array Nat) : (t.pick rows).numRows ≤ rows.size := by
  by_cases hnil : t.columns = []
  · rw [pick_of_columns_eq_nil hnil, numRows_of_columns_eq_nil hnil]
    exact Nat.zero_le _
  · exact Nat.le_of_eq (numRows_pick hnil rows)

theorem rectangular_pick (t : Table) (rows : Array Nat) : (t.pick rows).Rectangular := by
  intro c hc
  obtain ⟨d, hd, rfl⟩ := List.mem_map.1 hc
  rw [numRows_pick (List.ne_nil_of_mem hd)]
  exact d.numRows_pick rows

theorem pick_range {t : Table} (ht : t.Rectangular) : t.pick (Array.range t.numRows) = t := by
  have hcolumns : t.columns.map (·.pick (Array.range t.numRows)) = t.columns := by
    refine (List.map_congr_left ?_).trans (List.map_id t.columns)
    intro c hc
    rw [← ht c hc]
    exact c.pick_range
  unfold pick
  rw [hcolumns]

theorem pick_pick (t : Table) {rows others : Array Nat}
    (h : ∀ row, row ∈ others → row < rows.size) :
    (t.pick rows).pick others = t.pick (others.map fun i => rows.getD i 0) := by
  simp only [pick, List.map_map, Function.comp_def, Column.pick_pick _ h]

/-- The picked rows, in the order in which they are picked. -/
theorem tuples_pick {t : Table} (hne : t.columns ≠ []) (rows : Array Nat) :
    (t.pick rows).tuples = rows.toList.map t.tuple := by
  apply List.ext_getElem
  · simp [numRows_pick hne]
  · intro i hi hrows
    have hi' : i < rows.size := by simpa using hrows
    simp [tuples, tuple, Column.pick, hi']

/-- Picking all rows once, in any order, keeps them. -/
theorem tuples_pick_perm (t : Table) {rows : Array Nat}
    (h : rows.toList.Perm (List.range t.numRows)) : (t.pick rows).tuples.Perm t.tuples := by
  by_cases hnil : t.columns = []
  · rw [pick_of_columns_eq_nil hnil]
  · rw [tuples_pick hnil]
    exact h.map t.tuple

theorem numRows_pick_perm (t : Table) {rows : Array Nat}
    (h : rows.toList.Perm (List.range t.numRows)) : (t.pick rows).numRows = t.numRows := by
  rw [← length_tuples, ← length_tuples, (tuples_pick_perm t h).length_eq]

theorem exact_pick {t : Table} (ht : t.Rectangular) (hexact : t.Exact) {rows : Array Nat}
    (h : rows.toList.Perm (List.range t.numRows)) : (t.pick rows).Exact := by
  intro c hc value
  obtain ⟨d, hd, rfl⟩ := List.mem_map.1 hc
  rw [← ht d hd] at h
  rw [d.mem_values_pick_of_perm h]
  exact hexact d hd value

end Table

end StripePruning
