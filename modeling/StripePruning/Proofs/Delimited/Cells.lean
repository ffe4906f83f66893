import Mathlib.Data.Finset.Card
import Mathlib.Data.List.ReduceOption
import StripePruning.Delimited.Load
import StripePruning.Proofs.Column.Words
import StripePruning.Proofs.Steps
import StripePruning.Proofs.Table.Rows

/-!
# From cells to columns

The cells of a column are read in batches and become numbers.

* `Cells.foldlM_push` says that the batches may be cut anywhere: reading one after the other is
  reading all cells at once, and `Sheet.column_eq_ofBatches` says so of a column of a sheet.
* `differentTexts` are the different texts of a column in byte order.  The number of a
  text is its place among them (`getElem?_textNumbers`), and `Numbering` says what this makes of
  the numbers.
* `Sheet.numRows_column` says that a column of a sheet has a row for each record, so that
  `load_fails` leaves out tables whose columns differ in length.
* `columns_of_batches` puts these together.
-/

namespace StripePruning

namespace Delimited

/-! ## Batches -/

/-- A loop that succeeds gives as many results as it has steps. -/
theorem length_of_mapM {α β : Type} {step : α → Option β} {values : List α} {results : List β}
    (h : values.mapM step = some results) : results.length = values.length := by
  induction values generalizing results with
  | nil =>
    obtain rfl := Option.some_inj.mp h
    rfl
  | cons value rest ih =>
    rw [List.mapM_cons] at h
    obtain ⟨result, -, h⟩ := Option.bind_eq_some_iff.mp h
    obtain ⟨others, hothers, h⟩ := Option.bind_eq_some_iff.mp h
    obtain rfl := Option.some_inj.mp h
    rw [List.length_cons, List.length_cons, ih hothers]

/-- A loop over joined lists is a loop over the lists. -/
theorem mapM_flatten {α β : Type} (step : α → Option β) (lists : List (List α)) :
    lists.flatten.mapM step
      = (lists.mapM fun values : List α => values.mapM step).map List.flatten := by
  induction lists with
  | nil => rfl
  | cons values rest ih =>
    rw [List.flatten_cons, List.mapM_append, List.mapM_cons, ih]
    cases values.mapM step with
    | none => rfl
    | some results => cases rest.mapM fun values : List α => values.mapM step <;> rfl

namespace Cells

variable {type : Option CellType} {cells : Cells} {batch : List Field}

theorem push_nil (type : Option CellType) (cells : Cells) : cells.push type [] = .ok cells := by
  cases cells <;> simp [push]

theorem appendList_append {α : Type} (values : Array α) (first second : List α) :
    values ++ (first ++ second) = values ++ first ++ second := by
  apply Array.toList_inj.mp
  simp only [Array.toList_appendList, List.append_assoc]

theorem size_appendList {α : Type} (values : Array α) (more : List α) :
    (values ++ more).size = values.size + more.length := by
  rw [← Array.length_toList, Array.toList_appendList, List.length_append, Array.length_toList]

theorem push_append (type : Option CellType) (cells : Cells) (first second : List Field) :
    cells.push type (first ++ second)
      = cells.push type first >>= fun read => read.push type second := by
  cases cells with
  | texts read =>
    show Except.ok (texts (read ++ (first ++ second).map text?)) = _
    rw [List.map_append, appendList_append]
    rfl
  | numbers values =>
    unfold push
    rw [List.mapM_append]
    cases first.mapM (value? type) with
    | none => rfl
    | some more =>
      cases second.mapM (value? type) with
      | none => rfl
      | some others =>
        show Except.ok (numbers (values ++ (more ++ others))) = _
        rw [appendList_append]
        rfl

/-- Batches of cells may be cut anywhere. -/
theorem foldlM_push (type : Option CellType) (cells : Cells) (batches : List (List Field)) :
    batches.foldlM (fun read batch => read.push type batch) cells
      = cells.push type batches.flatten := by
  induction batches generalizing cells with
  | nil => exact (push_nil type cells).symm
  | cons batch rest ih =>
    rw [List.foldlM_cons, List.flatten_cons, push_append]
    exact congrArg (cells.push type batch >>= ·) (funext ih)

/-- The cells of a type that are read from some batches, one after the other. -/
def ofBatches (type : Option CellType) (batches : List (List Field)) : Except Error Cells :=
  batches.foldlM (fun cells batch => cells.push type batch) (empty type)

theorem ofBatches_text (batches : List (List Field)) :
    ofBatches (some .text) batches = .ok (.texts (batches.flatten.map text?).toArray) := by
  rw [ofBatches, foldlM_push]
  show Except.ok (texts ([].toArray ++ batches.flatten.map text?)) = _
  rw [List.toArray_appendList, List.nil_append]

/-- The cells of a column of numbers are the values of its batches, one batch behind the other. -/
theorem ofBatches_numbers (htype : type ≠ some .text) (batches : List (List Field)) :
    ofBatches type batches
      = match batches.mapM fun batch => batch.mapM (value? type) with
        | some values => .ok (.numbers values.flatten.toArray)
        | none => .error .malformedRecords := by
  have hempty : empty type = numbers #[] := by
    unfold empty
    split
    · exact absurd rfl htype
    · rfl
  rw [ofBatches, foldlM_push, hempty]
  unfold push
  rw [mapM_flatten]
  cases batches.mapM fun batch => batch.mapM (value? type) with
  | none => rfl
  | some values =>
    show Except.ok (numbers ([].toArray ++ values.flatten)) = _
    rw [List.toArray_appendList, List.nil_append]

/-- The number of cells that have been read. -/
def count : Cells → Nat
  | .numbers values => values.size
  | .texts read => read.size

theorem count_empty (type : Option CellType) : (empty type).count = 0 := by
  cases type with
  | none => rfl
  | some type => cases type <;> rfl

theorem count_push {more : Cells} (h : cells.push type batch = .ok more) :
    more.count = cells.count + batch.length := by
  cases cells with
  | texts read =>
    obtain rfl := Except.ok.inj h
    show (read ++ batch.map text?).size = read.size + batch.length
    rw [size_appendList, List.length_map]
  | numbers values =>
    unfold push at h
    cases hvalues : batch.mapM (value? type) with
    | none =>
      rw [hvalues] at h
      cases h
    | some others =>
      rw [hvalues] at h
      obtain rfl := Except.ok.inj h
      show (values ++ others).size = values.size + batch.length
      rw [size_appendList, length_of_mapM hvalues]

theorem numRows_toColumn (name : String) (cells : Cells) :
    (cells.toColumn name).numRows = cells.count := by
  cases cells <;> simp [toColumn, Column.numRows, Column.ofValues, textNumbers, count]

end Cells

/-! ## Numbers for texts -/

/-- Texts are compared byte by byte from the start. -/
theorem compare_eq_lt_iff (s t : Field) : compare s t = .lt ↔ s < t := by
  rw [List.compare_eq_compareLex]
  induction s generalizing t with
  | nil => cases t <;> simp [List.compareLex_nil_nil, List.compareLex_nil_cons]
  | cons x s ih =>
    cases t with
    | nil => simp [List.compareLex_cons_nil]
    | cons y t =>
      rw [List.compareLex_cons_cons, List.cons_lt_cons_iff, Ordering.then_eq_lt, ih,
        Std.compare_eq_iff_eq, Std.compare_eq_lt]

/-- The different texts among some cells, in byte order. -/
def differentTexts (cells : List (Option Field)) : List Field :=
  (Std.TreeMap.ofList (cells.reduceOption.map fun text => (text, ()))).keys

variable {cells : List (Option Field)} {text s t : Field} {i j k l : Nat}

theorem pairwise_differentTexts (cells : List (Option Field)) :
    (differentTexts cells).Pairwise (compare · · = .lt) :=
  Std.TreeMap.ordered_keys

theorem mem_differentTexts : text ∈ differentTexts cells ↔ some text ∈ cells := by
  unfold differentTexts
  rw [Std.TreeMap.mem_keys, Std.TreeMap.mem_ofList, List.contains_iff_mem, List.map_map]
  simp [Function.comp_def, List.reduceOption_mem_iff]

theorem nodup_differentTexts (cells : List (Option Field)) : (differentTexts cells).Nodup :=
  (pairwise_differentTexts cells).imp fun hlt heq => by
    rw [heq, Std.compare_self] at hlt
    cases hlt

theorem length_differentTexts (cells : List (Option Field)) :
    (differentTexts cells).length = cells.reduceOption.toFinset.card := by
  rw [← List.toFinset_card_of_nodup (nodup_differentTexts cells)]
  congr 1
  ext text
  simp [mem_differentTexts, List.reduceOption_mem_iff]

/-- The place of a text is its place among the different texts. -/
theorem getD_places (h : (differentTexts cells)[k]? = some text) :
    (places cells).getD text 0 = k := by
  have hpairwise : (differentTexts cells).zipIdx.Pairwise
      fun a b : Field × Nat => ¬ compare a.1 b.1 = .eq := by
    have hkeys : ((differentTexts cells).zipIdx.map Prod.fst).Pairwise
        fun s t => ¬ compare s t = .eq := by
      rw [List.zipIdx_map_fst]
      refine (pairwise_differentTexts cells).imp fun hlt heq => ?_
      rw [heq] at hlt
      cases hlt
    exact List.pairwise_map.mp hkeys
  exact Std.TreeMap.getD_ofList_of_mem Std.compare_self hpairwise
    (List.mk_mem_zipIdx_iff_getElem?.mpr h)

/-- The number of a text is its place among the different texts. -/
theorem getElem?_textNumbers (hi : cells[i]? = some (some text)) :
    ∃ k, (differentTexts cells)[k]? = some text ∧
      (textNumbers cells)[i]? = some (Int64.ofNat k) := by
  have hmem : text ∈ differentTexts cells :=
    mem_differentTexts.mpr (List.mem_of_getElem? hi)
  obtain ⟨k, hk⟩ := List.mem_iff_getElem?.mp hmem
  refine ⟨k, hk, ?_⟩
  unfold textNumbers
  rw [List.getElem?_map, hi, ← getD_places hk]
  rfl

theorem getElem?_textNumbers_of_missing (hi : cells[i]? = some none) :
    (textNumbers cells)[i]? = some Column.nullValue := by
  unfold textNumbers
  rw [List.getElem?_map, hi]
  rfl

/-- Places among the different texts are in the order of the texts. -/
theorem place_lt_iff (hk : (differentTexts cells)[k]? = some s)
    (hl : (differentTexts cells)[l]? = some t) : k < l ↔ s < t := by
  have hsorted : ∀ {k l : Nat} {s t : Field}, (differentTexts cells)[k]? = some s →
      (differentTexts cells)[l]? = some t → k < l → s < t := by
    intro k l s t hk hl hlt
    obtain ⟨hkLt, rfl⟩ := List.getElem?_eq_some_iff.mp hk
    obtain ⟨hlLt, rfl⟩ := List.getElem?_eq_some_iff.mp hl
    rw [← compare_eq_lt_iff]
    exact List.pairwise_iff_getElem.mp (pairwise_differentTexts cells) k l hkLt hlLt hlt
  refine ⟨hsorted hk hl, fun hlt => ?_⟩
  rw [← compare_eq_lt_iff] at hlt
  rcases Nat.lt_trichotomy k l with hlt' | heq | hgt
  · exact hlt'
  · rw [heq, hl] at hk
    rw [Option.some_inj.mp hk, Std.compare_self] at hlt
    cases hlt
  · have hback := hsorted hl hk hgt
    rw [← compare_eq_lt_iff, ← Std.OrientedCmp.gt_iff_lt, hlt] at hback
    cases hback

theorem place_eq_iff (hk : (differentTexts cells)[k]? = some s)
    (hl : (differentTexts cells)[l]? = some t) : k = l ↔ s = t := by
  constructor
  · intro heq
    rw [heq, hl] at hk
    exact (Option.some_inj.mp hk).symm
  · intro heq
    obtain ⟨hlt, -⟩ := List.getElem?_eq_some_iff.mp hk
    rw [← List.getElem?_inj hlt (nodup_differentTexts cells), hk, hl, heq]

/-- Numbers for the texts of some cells.  They are in the order of the texts, and they are the
first numbers from zero on, one for each text. -/
structure Numbering (cells : List (Option Field)) (numbers : List Int64) : Prop where
  ne_null : ∀ {i : Nat} {text : Field}, cells[i]? = some (some text) →
    numbers[i]? ≠ some Column.nullValue
  lt_iff : ∀ {i j : Nat} {s t : Field} {a b : Int64}, cells[i]? = some (some s) →
    cells[j]? = some (some t) → numbers[i]? = some a → numbers[j]? = some b → (a < b ↔ s < t)
  eq_iff : ∀ {i j : Nat} {s t : Field} {a b : Int64}, cells[i]? = some (some s) →
    cells[j]? = some (some t) → numbers[i]? = some a → numbers[j]? = some b → (a = b ↔ s = t)
  mem_iff : ∀ a : Int64, (∃ (i : Nat) (text : Field),
    cells[i]? = some (some text) ∧ numbers[i]? = some a) ↔
      0 ≤ a.toInt ∧ a.toInt < cells.reduceOption.toFinset.card

/-- As long as there are no more different texts than 64-bit integers from zero on, the numbers of
the texts are what they should be.  A list that fits into memory is shorter than that. -/
theorem numbering_textNumbers (h : cells.reduceOption.toFinset.card ≤ 2 ^ 63) :
    Numbering cells (textNumbers cells) := by
  have htoInt : ∀ {k : Nat} {text : Field}, (differentTexts cells)[k]? = some text →
      (Int64.ofNat k).toInt = k := by
    intro k text hk
    obtain ⟨hlt, -⟩ := List.getElem?_eq_some_iff.mp hk
    rw [length_differentTexts] at hlt
    exact Int64.toInt_ofNat_of_lt (by omega)
  -- The number of a present text as an integer.
  have hplace : ∀ {i : Nat} {text : Field} {a : Int64}, cells[i]? = some (some text) →
      (textNumbers cells)[i]? = some a →
        ∃ k : Nat, (differentTexts cells)[k]? = some text ∧ a.toInt = k := by
    intro i text a hi ha
    obtain ⟨k, hk, hnumber⟩ := getElem?_textNumbers hi
    rw [hnumber] at ha
    obtain rfl := Option.some_inj.mp ha
    exact ⟨k, hk, htoInt hk⟩
  constructor
  case ne_null =>
    intro i text hi hnull
    obtain ⟨k, -, hk⟩ := hplace hi hnull
    rw [Column.nullValue, Int64.toInt_minValue] at hk
    omega
  case lt_iff =>
    intro i j s t a b hi hj ha hb
    obtain ⟨k, hk, hka⟩ := hplace hi ha
    obtain ⟨l, hl, hlb⟩ := hplace hj hb
    rw [Int64.lt_iff_toInt_lt, hka, hlb, Int.ofNat_lt, place_lt_iff hk hl]
  case eq_iff =>
    intro i j s t a b hi hj ha hb
    obtain ⟨k, hk, hka⟩ := hplace hi ha
    obtain ⟨l, hl, hlb⟩ := hplace hj hb
    rw [← Int64.toInt_inj, hka, hlb, Int.natCast_inj, place_eq_iff hk hl]
  case mem_iff =>
    intro a
    rw [← length_differentTexts]
    constructor
    · intro ⟨i, text, hi, ha⟩
      obtain ⟨k, hk, hka⟩ := hplace hi ha
      obtain ⟨hlt, -⟩ := List.getElem?_eq_some_iff.mp hk
      omega
    · intro ⟨hnonneg, hlt⟩
      obtain ⟨k, hk⟩ := Int.eq_ofNat_of_zero_le hnonneg
      have hkLt : k < (differentTexts cells).length := by omega
      have hplace := List.getElem?_eq_getElem hkLt
      have hmem := mem_differentTexts.mp (List.getElem_mem hkLt)
      obtain ⟨i, hi⟩ := List.mem_iff_getElem?.mp hmem
      obtain ⟨l, hl, hnumber⟩ := getElem?_textNumbers hi
      obtain rfl := (place_eq_iff hl hplace).mpr rfl
      refine ⟨i, _, hi, ?_⟩
      rw [hnumber, Option.some_inj, ← Int64.toInt_inj, htoInt hl, hk]

/-! ## Columns of a sheet -/

namespace Sheet

/-- A column may be read in any batches of records. -/
theorem column_eq_ofBatches {s : Sheet} (name : String) (type : Option CellType) (position : Nat)
    {batches : List (List Record)} (hrows : batches.flatten = s.rows) :
    s.column name type position
      = (Cells.ofBatches type (batches.map (cellsAt position))).map (Cells.toColumn name) := by
  have hread : ∀ batches : List (List Record),
      batches.foldlM (fun cells rows => cells.push type (cellsAt position rows))
          (Cells.empty type)
        = (Cells.empty type).push type (cellsAt position batches.flatten) := by
    intro batches
    have hcells : cellsAt position batches.flatten = (batches.map (cellsAt position)).flatten :=
      List.map_flatten
    rw [hcells, ← Cells.foldlM_push, List.foldlM_map]
  unfold column
  rw [hread, Column.flatten_chunks (by decide), ← hrows, ← hread, Cells.ofBatches,
    List.foldlM_map]
  rfl

/-- A column of a sheet is read as if all of its cells were read at once. -/
theorem column_eq (s : Sheet) (name : String) (type : Option CellType) (position : Nat) :
    s.column name type position
      = ((Cells.empty type).push type (cellsAt position s.rows)).map (Cells.toColumn name) := by
  have hrows : [s.rows].flatten = s.rows := List.flatten_singleton
  rw [column_eq_ofBatches name type position hrows, Cells.ofBatches, Cells.foldlM_push,
    List.map_singleton, List.flatten_singleton]

/-- A column has a row for each record. -/
theorem numRows_column {s : Sheet} {name : String} {type : Option CellType} {position : Nat}
    {c : Column} (h : s.column name type position = .ok c) : c.numRows = s.rows.length := by
  rw [column_eq] at h
  obtain ⟨cells, hcells, hc⟩ := except_bind_eq_ok.1 h
  obtain rfl := Except.ok.inj hc
  rw [Cells.numRows_toColumn, Cells.count_push hcells, Cells.count_empty, cellsAt,
    List.length_map, Nat.zero_add]

/-- What a sheet that gives no table fails with. -/
def Fault (path : RawText) (names : List String) (error : Error) : Prop :=
  error = .unreadableInput ∨ error = .malformedRecords ∨
    ∃ name, name ∈ names ∧ error = .columnNotFound name (.file path.display)

theorem malformed_fails {α : Type} (path : RawText) (names : List String) :
    FailsWith (.error .malformedRecords : Except Error α) (Fault path names) :=
  failsWith_error (Or.inr (Or.inl rfl))

theorem position_fails (sample : Sample) (path : RawText) {name : String} {names : List String}
    (hname : name ∈ names) : FailsWith (sample.position path name) (Fault path names) := by
  rw [Sample.position]
  split
  · exact failsWith_ok _
  · exact failsWith_error (Or.inr (Or.inr ⟨name, hname, rfl⟩))

theorem push_fails (type : Option CellType) (cells : Cells) (batch : List Field) (path : RawText)
    (names : List String) : FailsWith (cells.push type batch) (Fault path names) := by
  rw [Cells.push.eq_def]
  split
  · split
    · exact failsWith_ok _
    · exact malformed_fails path names
  · exact failsWith_ok _

theorem column_fails (s : Sheet) (name : String) (type : Option CellType) (position : Nat)
    (path : RawText) (names : List String) :
    FailsWith (s.column name type position) (Fault path names) :=
  (FailsWith.foldlM (fun cells _ => push_fails type cells _ path names) _).bind fun _ _ =>
    failsWith_ok _

/-- A sheet that gives no table has malformed records or lacks a column.  Its columns never
differ in length. -/
theorem table_fails (s : Sheet) (path : RawText) (names : List String) :
    FailsWith (s.table path names) (Fault path names) := by
  rw [Sheet.table]
  split
  · rename_i sample _
    refine (FailsWith.mapM fun name hname => position_fails sample path hname).bind ?_
    intro positions _
    split
    · exact malformed_fails path names
    · refine (FailsWith.mapM fun place _ => s.column_fails _ _ _ path names).bind ?_
      intro columns hcolumns
      have hrows : ∀ c, c ∈ columns → c.numRows = s.rows.length := by
        intro c hc
        obtain ⟨place, -, hplace⟩ := exists_of_mem_mapM_ok hcolumns hc
        exact numRows_column hplace
      rw [Table.ofColumns_of_numRows _ hrows]
      exact failsWith_ok _
  · exact malformed_fails path names

end Sheet

theorem load_fails (files : Files) (path : RawText) (names : List String) :
    FailsWith (load files path names) (Sheet.Fault path names) := by
  unfold load
  split
  · exact Sheet.table_fails _ path names
  · exact Sheet.malformed_fails path names
  · exact failsWith_error (Or.inl rfl)

/-- The columns of a sheet under some names: each is the column at the place where the sample finds
its name, of the type that the sample shows for this place. -/
def Sheet.Columns (s : Sheet) (path : RawText) (names : List String) (columns : List Column) :
    Prop :=
  ∃ sample positions, s.sample? = some sample ∧ names.mapM (sample.position path) = .ok positions ∧
    ((names.zip positions).mapM fun place =>
      s.column place.1 (sample.cellType place.2) place.2) = .ok columns

/-- A table that is loaded has the columns of its file, and they are equally long. -/
theorem columns_of_load {files : Files} {path : RawText} {names : List String} {t : Table}
    (h : load files path names = .ok t) :
    t.Rectangular ∧ ∃ content, files.entry path = .ok (.file content) ∧
      (Sheet.ofBytes content.data.toList).Columns path names t.columns := by
  unfold load at h
  split at h
  · rename_i content hentry
    unfold Sheet.table at h
    split at h
    · rename_i sample hsample
      obtain ⟨positions, hpositions, h⟩ := except_bind_eq_ok.1 h
      split at h
      · cases h
      · obtain ⟨columns, hcolumns, h⟩ := except_bind_eq_ok.1 h
        obtain ⟨rfl, hrows⟩ := Table.rectangular_of_ofColumns h
        exact ⟨hrows, content, hentry, sample, positions, hsample, hpositions, hcolumns⟩
    · cases h
  · cases h
  · cases h

/-! ## Loaded columns -/

/-- What becomes of the cells of a column does not depend on how they come in batches.  Texts get
numbers in byte order, missing ones null, and numbers stay as they are.  The columns of a load are
those of its sheet.  Each has a row for each record, so no load fails for columns of different
lengths. -/
theorem columns_of_batches (name : String) (type : Option CellType) (batches : List (List Field))
    (cells : List (Option Field)) (files : Files) (path : RawText) (names : List String) :
    ((Cells.ofBatches (some .text) batches).map (Cells.toColumn name)
      = .ok (Column.ofValues name (textNumbers (batches.flatten.map Cells.text?)).toArray)) ∧
    (type ≠ some .text → (Cells.ofBatches type batches).map (Cells.toColumn name)
      = match batches.mapM fun batch => batch.mapM (value? type) with
        | some values => .ok (Column.ofValues name values.flatten.toArray)
        | none => .error .malformedRecords) ∧
    (∀ (s : Sheet) (position : Nat) (rows : List (List Record)), rows.flatten = s.rows →
      s.column name type position
        = (Cells.ofBatches type (rows.map (cellsAt position))).map (Cells.toColumn name)) ∧
    (textNumbers cells).length = cells.length ∧
    (∀ i : Nat, cells[i]? = some none → (textNumbers cells)[i]? = some Column.nullValue) ∧
    (cells.reduceOption.toFinset.card ≤ 2 ^ 63 → Numbering cells (textNumbers cells)) ∧
    (match load files path names with
      | .ok t => t.Rectangular ∧ ∃ content, files.entry path = .ok (.file content) ∧
          (Sheet.ofBytes content.data.toList).Columns path names t.columns
      | .error error => ∀ column expected found, error ≠ .raggedTable column expected found) := by
  refine ⟨?texts, ?numbers, ?sheets, ?length, fun i => getElem?_textNumbers_of_missing,
    numbering_textNumbers, ?load⟩
  case texts =>
    rw [Cells.ofBatches_text]
    show Except.ok (Column.ofValues name (textNumbers _).toArray) = _
    rw [List.toList_toArray]
  case numbers =>
    intro htype
    rw [Cells.ofBatches_numbers htype]
    cases batches.mapM fun batch => batch.mapM (value? type) with
    | none => rfl
    | some values => rfl
  case sheets =>
    intro s position rows hrows
    exact Sheet.column_eq_ofBatches name type position hrows
  case length => exact List.length_map _
  case load =>
    split
    case h_1 t hload => exact columns_of_load hload
    case h_2 error hload =>
      rintro column expected found rfl
      rcases load_fails files path names _ hload with h | h | ⟨_, -, h⟩ <;> cases h

/-- Ten, nine, nothing and ten in two batches, as texts and as numbers.  Ten comes before nine among
the texts. -/
theorem columns_of_batches_numerals :
    let batches : List (List Field) := [[[49, 48], [57], []], [[49, 48]]]
    let texts : List (Option Field) := [some [49, 48], some [57], none, some [49, 48]]
    let sheet : Sheet :=
      { header := [[99]], rows := [[[49, 48]], [[57]], [[]], [[49, 48]]], isBlank := false }
    (Cells.ofBatches (some .text) batches).map (Cells.toColumn "c")
        = .ok (Column.ofValues "c" #[0, 1, Column.nullValue, 0]) ∧
      sheet.column "c" (some .integer) 0
        = .ok (Column.ofValues "c" #[10, 9, Column.nullValue, 10]) ∧
      (textNumbers texts)[2]? = some Column.nullValue ∧
      Numbering texts (textNumbers texts) := by
  intro batches texts sheet
  obtain ⟨htexts, hnumbers, hsheets, -, hmissing, hnumbering, -⟩ :=
    columns_of_batches "c" (some .integer) batches texts (Files.ofList []) "" []
  have hplaces : textNumbers texts = [0, 1, Column.nullValue, 0] := by decide +kernel
  have hvalues : (batches.mapM fun batch => batch.mapM (value? (some .integer)))
      = some [[10, 9, Column.nullValue], [10]] := by decide +kernel
  refine ⟨?_, ?_, hmissing 2 rfl, hnumbering (by decide +kernel)⟩
  · rw [htexts]
    show Except.ok (Column.ofValues "c" (textNumbers texts).toArray) = _
    rw [hplaces]
  · refine (hsheets sheet 0 [sheet.rows.take 3, sheet.rows.drop 3] rfl).trans ?_
    show (Cells.ofBatches (some .integer) batches).map (Cells.toColumn "c") = _
    rw [hnumbers (by decide), hvalues]
    rfl

end Delimited

end StripePruning
