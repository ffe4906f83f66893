import StripePruning.Proofs.Random.Outcomes
import StripePruning.Proofs.Steps
import StripePruning.Proofs.Table.Rows
import StripePruning.Table.Rearrangement

/-!
# Rows stay together

Calls rewrite the columns of a table one after the other.  They never tear a
row apart, whatever lists of row numbers they are given and whether or not
they fail, because all columns have the same rows to take from.

* `rewrite_of_lt` and `rewrite_of_le` are the two ways in which columns of one
  length can be rewritten: all of them by the same rows, or none.
* `OriginsOf` are the row numbers of a table that another one is made of.
  `exists_origins_perform` gives them for one call and
  `exists_origins_performAll` for a whole run.
* `performAll_consistent` says what follows for the columns of the table.
-/

namespace StripePruning

/-- The call takes every one of `n` rows once. -/
def Rearrangement.Permutes (n : Nat) : Rearrangement → Prop
  | .reorder rows => rows.toList.Perm (List.range n)
  | .sortByCardinality => True
  | .shuffle => True
  | .applySorting _ => True

namespace Table

variable {t : Table} {rows : Array Nat}

/-! ## Rewriting in place -/

theorem rewriteColumns_of_ok {columns : List Column}
    (h : ∀ c, c ∈ columns → c.reorder rows = .ok (c.pick rows)) :
    rewriteColumns rows columns = (columns.map (·.pick rows), .ok ()) := by
  induction columns with
  | nil => rfl
  | cons c rest ih =>
    have hrest := ih fun d hd => h d (List.mem_cons_of_mem c hd)
    rw [rewriteColumns, h c List.mem_cons_self, hrest]
    rfl

/-- Rows that are there are taken in every column. -/
theorem rewrite_of_lt (ht : t.Rectangular) (h : ∀ row, row ∈ rows → row < t.numRows) :
    t.rewrite rows = (t.pick rows, .ok ()) := by
  have hreorder : ∀ c, c ∈ t.columns → c.reorder rows = .ok (c.pick rows) := by
    intro c hc
    apply Column.reorder_of_lt
    intro row hrow
    rw [ht c hc]
    exact h row hrow
  rw [rewrite, rewriteColumns_of_ok hreorder]
  rfl

/-- A row that is not there fails in the first column already, so that no column
is rewritten. -/
theorem rewrite_of_le (hne : t.columns ≠ [])
    (h : ∃ row, row ∈ rows ∧ t.numRows ≤ row) :
    ∃ row, row ∈ rows ∧ t.numRows ≤ row ∧
      t.rewrite rows = (t, .error (.rowOutOfRange row t.numRows)) := by
  obtain ⟨name, columns⟩ := t
  cases columns with
  | nil => exact absurd rfl hne
  | cons first rest =>
    obtain ⟨row, hrow, hle, herror⟩ := Column.reorder_of_le (c := first) h
    refine ⟨row, hrow, hle, ?_⟩
    rw [rewrite, rewriteColumns, herror]
    rfl

theorem rewrite_of_columns_eq_nil (h : t.columns = []) (rows : Array Nat) :
    t.rewrite rows = (t, .ok ()) := by
  obtain ⟨name, columns⟩ := t
  obtain rfl : columns = [] := h
  rfl

/-- Rewriting in place gives what the reordered copy of the table gives. -/
theorem reorder_eq_rewrite (t : Table) (rows : Array Nat) :
    t.reorder rows = (t.rewrite rows).2.map fun _ => (t.rewrite rows).1 := by
  have hcolumns (columns : List Column) : columns.mapM (·.reorder rows)
      = (rewriteColumns rows columns).2.map fun _ => (rewriteColumns rows columns).1 := by
    induction columns with
    | nil => rfl
    | cons c rest ih =>
      rw [List.mapM_cons, ih, rewriteColumns]
      cases c.reorder rows with
      | error error => rfl
      | ok rewritten => cases (rewriteColumns rows rest).2 <;> rfl
  rw [reorder, hcolumns, rewrite]
  cases (rewriteColumns rows t.columns).2 <;> rfl

/-! ## The rows that calls take -/

theorem perm_sortedRows (t : Table) : t.sortedRows.toList.Perm (List.range t.numRows) :=
  List.mergeSort_perm _ _

theorem perm_shuffledRows (h : t.shuffledRows = .ok rows) :
    rows.toList.Perm (List.range t.numRows) := by
  unfold shuffledRows at h
  cases hrun : (Draw.shuffle (Array.range t.numRows)).run (Keystream.ofSeed shuffleSeed) with
  | none =>
    rw [hrun] at h
    cases h
  | some pair =>
    obtain ⟨shuffled, rest⟩ := pair
    rw [hrun] at h
    obtain rfl := Except.ok.inj h
    have hperm := Draw.yields_shuffle (Array.range t.numRows) _ _ _ hrun
    rwa [Array.toList_range] at hperm

/-- Every call but a reordering takes each row once. -/
theorem perm_of_rowsFor {call : Rearrangement} (hcall : call.Permutes t.numRows)
    (h : t.rowsFor call = .ok (some rows)) : rows.toList.Perm (List.range t.numRows) := by
  have hshuffled (hmap : t.shuffledRows.map some = .ok (some rows)) :
      rows.toList.Perm (List.range t.numRows) := by
    cases hrows : t.shuffledRows with
    | error error => simp [hrows, Except.map] at hmap
    | ok shuffled =>
      have heq : shuffled = rows := by simpa [hrows, Except.map] using hmap
      exact perm_shuffledRows (heq ▸ hrows)
  have hsorted (hsome : (Except.ok (some t.sortedRows) : Except Error _) = .ok (some rows)) :
      rows.toList.Perm (List.range t.numRows) := by
    have heq : t.sortedRows = rows := Option.some.inj (Except.ok.inj hsome)
    exact heq ▸ t.perm_sortedRows
  cases call with
  | reorder given =>
    obtain rfl : given = rows := Option.some.inj (Except.ok.inj h)
    exact hcall
  | sortByCardinality => exact hsorted h
  | shuffle => exact hshuffled h
  | applySorting sorting =>
    cases sorting with
    | none => cases h
    | byCardinality => exact hsorted h
    | random => exact hshuffled h

/-! ## Origins -/

/-- The rows of `left` are the rows of `t` with the given numbers, one after the
other. -/
structure OriginsOf (t left : Table) (origins : Array Nat) : Prop where
  lt : ∀ row, row ∈ origins → row < t.numRows
  eq_pick : left = t.pick origins

namespace OriginsOf

variable {left last : Table} {origins others : Array Nat}

theorem refl (ht : t.Rectangular) : t.OriginsOf t (Array.range t.numRows) where
  lt row hrow := by simpa using hrow
  eq_pick := (pick_range ht).symm

theorem rectangular (h : t.OriginsOf left origins) : left.Rectangular :=
  h.eq_pick ▸ t.rectangular_pick origins

private theorem lt_size (h : t.OriginsOf left origins) (hlast : left.OriginsOf last others)
    {i : Nat} (hi : i ∈ others) : i < origins.size := by
  have hlt := hlast.lt i hi
  have hle := t.numRows_pick_le origins
  rw [← h.eq_pick] at hle
  omega

/-- The origins of origins. -/
theorem trans (h : t.OriginsOf left origins) (hlast : left.OriginsOf last others) :
    t.OriginsOf last (others.map fun i => origins.getD i 0) where
  lt row hrow := by
    obtain ⟨i, hi, rfl⟩ := Array.mem_map.1 hrow
    have hsize := h.lt_size hlast hi
    apply h.lt
    simp [hsize]
  eq_pick := by
    rw [hlast.eq_pick, h.eq_pick]
    exact t.pick_pick fun i hi => h.lt_size hlast hi

theorem perm_trans (h : t.OriginsOf left origins)
    (horigins : origins.toList.Perm (List.range t.numRows))
    (hothers : others.toList.Perm (List.range left.numRows)) :
    (others.map fun i => origins.getD i 0).toList.Perm (List.range t.numRows) := by
  have hsize : origins.size = t.numRows := by simpa using horigins.length_eq
  have hrows : left.numRows = origins.size := by
    rw [h.eq_pick, t.numRows_pick_perm horigins, hsize]
  have hself : (List.range origins.size).map (fun i => origins.getD i 0) = origins.toList := by
    apply List.ext_getElem
    · simp
    · intro i hi hi'
      have hlt : i < origins.size := by simpa using hi
      simp [hlt]
  rw [hrows] at hothers
  rw [Array.toList_map]
  exact ((hothers.map _).trans (List.Perm.of_eq hself)).trans horigins

end OriginsOf

/-- A call leaves rows of the table that it finds, and each of them once if it is
meant to. -/
theorem exists_origins_perform (ht : t.Rectangular) (call : Rearrangement) :
    ∃ origins, t.OriginsOf (t.perform call).1 origins ∧
      (call.Permutes t.numRows → origins.toList.Perm (List.range t.numRows)) := by
  have hsame : t.OriginsOf t (Array.range t.numRows) ∧
      (call.Permutes t.numRows →
        (Array.range t.numRows).toList.Perm (List.range t.numRows)) :=
    ⟨.refl ht, fun _ => List.Perm.of_eq Array.toList_range⟩
  unfold perform
  cases hrows : t.rowsFor call with
  | error error => exact ⟨_, hsame⟩
  | ok rows? =>
    cases rows? with
    | none => exact ⟨_, hsame⟩
    | some rows =>
      dsimp only
      by_cases hnil : t.columns = []
      · rw [rewrite_of_columns_eq_nil hnil]
        exact ⟨_, hsame⟩
      by_cases hlt : ∀ row, row ∈ rows → row < t.numRows
      · rw [rewrite_of_lt ht hlt]
        exact ⟨rows, ⟨hlt, rfl⟩, fun hcall => perm_of_rowsFor hcall hrows⟩
      · have hle : ∃ row, row ∈ rows ∧ t.numRows ≤ row := by simpa using hlt
        obtain ⟨row, -, -, hrewrite⟩ := rewrite_of_le hnil hle
        rw [hrewrite]
        exact ⟨_, hsame⟩

/-- A run of calls leaves rows of the table that it started with, and each of them
once if all calls are meant to. -/
theorem exists_origins_performAll (ht : t.Rectangular) (calls : List Rearrangement) :
    ∃ origins, t.OriginsOf (t.performAll calls) origins ∧
      ((∀ call, call ∈ calls → call.Permutes t.numRows) →
        origins.toList.Perm (List.range t.numRows)) := by
  induction calls generalizing t with
  | nil => exact ⟨_, .refl ht, fun _ => List.Perm.of_eq Array.toList_range⟩
  | cons call rest ih =>
    obtain ⟨origins, hfirst, hperm⟩ := exists_origins_perform ht call
    obtain ⟨others, hrest, hpermRest⟩ := ih hfirst.rectangular
    refine ⟨_, hfirst.trans hrest, ?_⟩
    intro hcalls
    have horigins := hperm (hcalls call List.mem_cons_self)
    -- The rows left by the first call are as many as before, so the others permute them too.
    have hrows : (t.perform call).1.numRows = t.numRows := by
      rw [hfirst.eq_pick, t.numRows_pick_perm horigins]
    refine hfirst.perm_trans horigins (hpermRest ?_)
    intro other hother
    rw [hrows]
    exact hcalls other (List.mem_cons_of_mem call hother)

/-- However the rows of a table are rearranged, failing calls included, its columns keep one
number of rows, their names and their sets of different values, and these sets take in the
rows.  There is one list of original row numbers for all columns, so no row is torn apart.  A
reordering by a row that is not there fails and changes no column.  Calls that take every row
once keep the rows, in some order, and every column holds exactly its different values. -/
theorem performAll_consistent (ht : t.Fresh) (calls : List Rearrangement) :
    ∃ left, t.performAll calls = left ∧
      left.Rectangular ∧
      (∃ origins : Array Nat, (∀ row, row ∈ origins → row < t.numRows) ∧
        left = t.pick origins) ∧
      left.columns.map (·.name) = t.columns.map (·.name) ∧
      left.columns.map (·.distinct) = t.columns.map (·.distinct) ∧
      (∀ c, c ∈ left.columns → ∀ value, value ∈ c.values → c.contains value = true) ∧
      (∀ rows : Array Nat, left.columns ≠ [] → (∃ row, row ∈ rows ∧ left.numRows ≤ row) →
        ∃ row, row ∈ rows ∧ left.numRows ≤ row ∧
          left.perform (.reorder rows) = (left, .error (.rowOutOfRange row left.numRows))) ∧
      ((∀ call, call ∈ calls → call.Permutes t.numRows) →
        left.tuples.Perm t.tuples ∧
        ∀ c, c ∈ left.columns → ∀ value, c.contains value = true ↔ value ∈ c.values) := by
  obtain ⟨origins, horigins, hperm⟩ := exists_origins_performAll ht.rectangular calls
  refine ⟨_, rfl, horigins.rectangular, ⟨origins, horigins.lt, horigins.eq_pick⟩, ?_, ?_, ?_,
    fun rows hne hrow => rewrite_of_le hne hrow, ?_⟩
  · simp [horigins.eq_pick]
  · simp [horigins.eq_pick]
  · intro c hc value hvalue
    rw [horigins.eq_pick] at hc
    obtain ⟨d, hd, rfl⟩ := List.mem_map.1 hc
    obtain ⟨row, hrow, rfl⟩ := Array.mem_map.1 hvalue
    have hsize : d.values.size = t.numRows := ht.rectangular d hd
    have hlt : row < d.values.size := hsize ▸ horigins.lt row hrow
    refine (ht.exact d hd _).2 ?_
    simp [hlt]
  · intro hcalls
    rw [horigins.eq_pick]
    exact ⟨t.tuples_pick_perm (hperm hcalls), exact_pick ht.rectangular ht.exact (hperm hcalls)⟩

/-- Four rows of two columns. -/
def orders : Table :=
  { name := "orders"
    columns := [Column.ofValues "customer" #[42, 13, 1, 42],
      Column.ofValues "country" #[1, Column.nullValue, 1, 0]] }

theorem fresh_orders : orders.Fresh := by
  have hofColumns : Table.ofColumns "orders" orders.columns = .ok orders := rfl
  refine .ofColumns ?_ hofColumns
  intro c hc
  simp only [orders, List.mem_cons, List.not_mem_nil, or_false] at hc
  obtain rfl | rfl := hc
  · exact ⟨_, _, rfl⟩
  · exact ⟨_, _, rfl⟩

/-- A call that fails, and one that leaves a row out and repeats another: row 3 is
there no more. -/
theorem performAll_consistent_orders :
    orders.Fresh ∧ ∃ left, orders.performAll [.reorder #[3, 9], .reorder #[2, 0, 0]] = left ∧
      left.tuples = [[1, 1], [42, 1], [42, 1]] ∧
      left.columns.map (·.name) = ["customer", "country"] ∧
      left.perform (.reorder #[0, 3]) = (left, .error (.rowOutOfRange 3 3)) := by
  obtain ⟨left, hleft, -, -, hnames, -, -, hfails, -⟩ :=
    performAll_consistent fresh_orders [.reorder #[3, 9], .reorder #[2, 0, 0]]
  have hrows : left.numRows = 3 := by
    rw [← hleft]
    decide +kernel
  have hne : left.columns ≠ [] := by
    rw [← hleft]
    exact List.cons_ne_nil _ _
  obtain ⟨row, hrow, hle, hperform⟩ := hfails #[0, 3] hne ⟨3, by simp, Nat.le_of_eq hrows⟩
  obtain rfl : row = 3 := by
    simp only [List.mem_toArray, List.mem_cons, List.not_mem_nil, or_false] at hrow
    omega
  rw [hrows] at hperform
  refine ⟨fresh_orders, left, hleft, ?_, hnames, hperform⟩
  rw [← hleft]
  decide +kernel

end Table

end StripePruning
