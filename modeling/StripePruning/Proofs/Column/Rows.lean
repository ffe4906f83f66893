import Mathlib.Data.Set.Defs
import StripePruning.Column.Stripe

/-!
# Rows, chunks and stripes

An index is built over the chunks of a column, and asked about its stripes.
This module shows that both are the same pieces, and that a piece holds the
values of the rows whose number divided by the stripe size is its own number.

* `getElem?_chunks` gives every chunk of a list by its place.
* `chunks_eq_stripes` says that the chunks of the rows are the stripes.
* `stripeContains_iff` says what a stripe holds in terms of rows, and `present` are
  the values that it holds apart from null.
* `Reachable` are the columns that can be made, and `Reachable.contains` is the
  one fact about them that lookups rest on: the set of different values takes
  in every row, whatever the rows went through.
-/

namespace StripePruning

/-! ## Chunks -/

theorem chunks_nil {α : Type} (size : Nat) : chunks size ([] : List α) = [] := by
  rw [chunks]

/-- The first chunk, and the chunks of what it leaves. -/
theorem chunks_eq_cons {α : Type} {size : Nat} (hsize : 0 < size) {values : List α}
    (hne : values ≠ []) :
    chunks size values = values.take size :: chunks size (values.drop size) := by
  cases values with
  | nil => exact absurd rfl hne
  | cons value rest =>
    have hdrop : (value :: rest).drop size = rest.drop (size - 1) := by
      rw [← Nat.succ_pred_eq_of_pos hsize, List.drop_succ_cons]
      rfl
    rw [chunks, if_neg (Nat.ne_of_gt hsize), hdrop]

/-- Chunk `i` starts at element `size * i`, if there is such an element. -/
theorem getElem?_chunks {α : Type} {size : Nat} (hsize : 0 < size) (values : List α) (i : Nat) :
    (chunks size values)[i]?
      = if size * i < values.length then some ((values.drop (size * i)).take size) else none := by
  induction i generalizing values with
  | zero =>
    cases values with
    | nil => simp [chunks_nil]
    | cons value rest => simp [chunks_eq_cons hsize]
  | succ i ih =>
    cases values with
    | nil => simp [chunks_nil]
    | cons value rest =>
      have hlt : size * i < ((value :: rest).drop size).length ↔
          size * (i + 1) < (value :: rest).length := by
        rw [List.length_drop, Nat.mul_add, Nat.mul_one]
        omega
      rw [chunks_eq_cons hsize (List.cons_ne_nil value rest), List.getElem?_cons_succ, ih,
        List.drop_drop]
      simp only [hlt, Nat.mul_add, Nat.mul_one, Nat.add_comm size]

namespace Column

variable {c : Column} {stripeSize : Nat}

/-! ## Stripes -/

/-- A stripe exists if its first row does. -/
theorem lt_numStripes_iff (hsize : 0 < stripeSize) {id : Nat} :
    id < c.numStripes stripeSize ↔ stripeSize * id < c.numRows := by
  rw [numStripes, if_neg (Nat.ne_of_gt hsize), Nat.lt_iff_add_one_le,
    Nat.le_div_iff_mul_le hsize, Nat.add_mul, Nat.mul_comm id]
  omega

/-- A stripe as a piece of the list of rows. -/
theorem toList_stripe (c : Column) (stripeSize id : Nat) :
    (c.stripe stripeSize id).toList
      = (c.values.toList.drop (stripeSize * id)).take stripeSize := by
  have hlength : c.values.toList.length = c.numRows := rfl
  rw [stripe, Array.toList_extract, List.extract_eq_take_drop]
  by_cases hid : stripeSize * id ≤ c.numRows
  · rw [Nat.min_eq_left hid, List.take_eq_take_iff, List.length_drop, hlength]
    omega
  -- Past the last row the bounds of the stripe meet at the end, and nothing is left.
  · have hle : c.numRows ≤ stripeSize * id := Nat.le_of_not_le hid
    rw [Nat.min_eq_right hle, List.drop_of_length_le (Nat.le_of_eq hlength),
      List.drop_of_length_le (hlength ▸ hle), List.take_nil, List.take_nil]

/-- The pieces that indexes are built over are the stripes. -/
theorem chunks_eq_stripes (c : Column) (hsize : 0 < stripeSize) :
    chunks stripeSize c.values.toList = c.stripes stripeSize := by
  apply List.ext_getElem?
  intro id
  rw [getElem?_chunks hsize, stripes, List.getElem?_map]
  by_cases hid : stripeSize * id < c.numRows
  · have hlt : id < c.numStripes stripeSize := (lt_numStripes_iff hsize).2 hid
    have hrows : stripeSize * id < c.values.toList.length := hid
    rw [if_pos hrows, List.getElem?_range hlt, Option.map_some, toList_stripe]
  · have hlt : ¬ id < c.numStripes stripeSize := fun h => hid ((lt_numStripes_iff hsize).1 h)
    have hrows : ¬ stripeSize * id < c.values.toList.length := hid
    rw [if_neg hrows, List.getElem?_eq_none (by simpa using hlt), Option.map_none]

theorem length_stripes (c : Column) (stripeSize : Nat) :
    (c.stripes stripeSize).length = c.numStripes stripeSize := by
  simp [stripes]

/-- There are as many pieces as stripes. -/
theorem length_chunks (c : Column) (hsize : 0 < stripeSize) :
    (chunks stripeSize c.values.toList).length = c.numStripes stripeSize := by
  rw [chunks_eq_stripes c hsize, length_stripes]

/-- A stripe holds the values of its rows. -/
theorem mem_stripe_iff (hsize : 0 < stripeSize) {id : Nat} {value : Int64} :
    value ∈ (c.stripe stripeSize id).toList ↔
      ∃ row, c.valueAt? row = some value ∧ row / stripeSize = id := by
  have hvalue : ∀ row, c.values.toList[row]? = c.valueAt? row := fun row =>
    Array.getElem?_toList
  rw [toList_stripe, List.mem_iff_getElem?]
  constructor
  · rintro ⟨offset, hoffset⟩
    rw [List.getElem?_take, List.getElem?_drop, hvalue] at hoffset
    obtain ⟨hlt, hrow⟩ := Option.ite_none_right_eq_some.1 hoffset
    refine ⟨stripeSize * id + offset, hrow, ?_⟩
    rw [Nat.mul_add_div hsize, Nat.div_eq_of_lt hlt, Nat.add_zero]
  · rintro ⟨row, hrow, rfl⟩
    refine ⟨row % stripeSize, ?_⟩
    rw [List.getElem?_take_of_lt (Nat.mod_lt row hsize), List.getElem?_drop, hvalue,
      Nat.div_add_mod, hrow]

theorem stripeContains_iff_mem {id : Nat} {value : Int64} :
    c.stripeContains stripeSize id value = true ↔ value ∈ (c.stripe stripeSize id).toList := by
  rw [stripeContains, Array.contains_iff_mem, Array.mem_toList_iff]

/-- A value of a chunk is a value of the stripe at the same place. -/
theorem exists_chunk_iff (c : Column) (hsize : 0 < stripeSize) {id : Nat} {value : Int64} :
    (∃ chunk, (chunks stripeSize c.values.toList)[id]? = some chunk ∧ value ∈ chunk) ↔
      c.stripeContains stripeSize id value = true := by
  rw [stripeContains_iff_mem, toList_stripe, getElem?_chunks hsize]
  constructor
  · rintro ⟨chunk, hchunk, hvalue⟩
    obtain ⟨-, hsome⟩ := Option.ite_none_right_eq_some.1 hchunk
    rwa [Option.some.inj hsome]
  · intro hvalue
    have hlt : stripeSize * id < c.values.toList.length := by
      have hdrop := List.mem_of_mem_take hvalue
      have hpos := List.length_pos_of_mem hdrop
      rw [List.length_drop] at hpos
      omega
    exact ⟨_, if_pos hlt, hvalue⟩

/-- A stripe contains a value if one of its rows holds it. -/
theorem stripeContains_iff (hsize : 0 < stripeSize) {id : Nat} {value : Int64} :
    c.stripeContains stripeSize id value = true ↔
      ∃ row, c.valueAt? row = some value ∧ row / stripeSize = id := by
  rw [stripeContains_iff_mem, mem_stripe_iff hsize]

theorem lt_numStripes_of_stripeContains (hsize : 0 < stripeSize) {id : Nat} {value : Int64}
    (h : c.stripeContains stripeSize id value = true) : id < c.numStripes stripeSize := by
  obtain ⟨row, hrow, rfl⟩ := (stripeContains_iff hsize).1 h
  obtain ⟨hlt, -⟩ := Array.getElem?_eq_some_iff.1 hrow
  rw [lt_numStripes_iff hsize]
  exact Nat.lt_of_le_of_lt (Nat.mul_div_le row stripeSize) hlt

/-- The values that the rows of a stripe hold, null apart. -/
def present (c : Column) (stripeSize id : Nat) : Set Int64 :=
  {value | value ≠ nullValue ∧ ∃ row, c.valueAt? row = some value ∧ row / stripeSize = id}

/-- The values that a stripe holds are those of the chunk at the same place. -/
theorem present_of_chunk (hsize : 0 < stripeSize) {id : Nat} {chunk : List Int64}
    (hchunk : (chunks stripeSize c.values.toList)[id]? = some chunk) :
    c.present stripeSize id = {value | value ∈ chunk ∧ value ≠ nullValue} := by
  ext value
  have hmem : (∃ row, c.valueAt? row = some value ∧ row / stripeSize = id) ↔ value ∈ chunk := by
    rw [← stripeContains_iff hsize, ← exists_chunk_iff c hsize, hchunk]
    simp
  exact (and_congr_right fun _ => hmem).trans and_comm

/-- The values of the stripes are the values of the rows. -/
theorem exists_stripeContains_iff (hsize : 0 < stripeSize) {value : Int64} :
    (∃ id, c.stripeContains stripeSize id value = true) ↔ value ∈ c.values := by
  simp only [stripeContains_iff hsize]
  rw [Array.mem_iff_getElem?]
  constructor
  · rintro ⟨_, row, hrow, -⟩
    exact ⟨row, hrow⟩
  · rintro ⟨row, hrow⟩
    exact ⟨row / stripeSize, row, hrow, rfl⟩

/-! ## Columns that can be made -/

/-- The columns that come from given values by putting rows into other orders.
A step may leave rows out or repeat them. -/
inductive Reachable : Column → Prop where
  | ofValues (name : String) (values : Array Int64) : Reachable (Column.ofValues name values)
  | reorder {c c' : Column} {rows : Array Nat} (hc : Reachable c)
      (hrows : c.reorder rows = .ok c') : Reachable c'

theorem contains_ofValues {name : String} {values : Array Int64} {value : Int64} :
    (Column.ofValues name values).contains value = true ↔ value ∈ values := by
  rw [Column.contains, ofValues, Std.TreeSet.contains_ofList, List.contains_iff_mem,
    Array.mem_toList_iff]

/-- A reordering keeps the set of different values and takes its rows from the
rows that are there. -/
theorem reorder_eq_ok {c c' : Column} {rows : Array Nat} (h : c.reorder rows = .ok c') :
    c'.distinct = c.distinct ∧ ∀ value, value ∈ c'.values → value ∈ c.values := by
  rw [Column.reorder] at h
  cases hfind : rows.find? (c.numRows ≤ ·) with
  | some row => simp [hfind] at h
  | none =>
    rw [hfind] at h
    obtain rfl := Except.ok.inj h
    refine ⟨rfl, fun value hvalue => ?_⟩
    obtain ⟨row, hrow, rfl⟩ := Array.mem_map.1 hvalue
    have hlt : row < c.values.size := by
      have hnot := Array.find?_eq_none.1 hfind row hrow
      rw [decide_eq_true_eq] at hnot
      exact Nat.lt_of_not_le hnot
    simp [hlt]

/-- Every row of a column that can be made holds a value of its set of
different values. -/
theorem Reachable.contains {c : Column} (hc : Reachable c) {value : Int64}
    (hvalue : value ∈ c.values) : c.contains value = true := by
  induction hc with
  | ofValues name values => exact contains_ofValues.2 hvalue
  | @reorder c c' rows _ hrows ih =>
    obtain ⟨hdistinct, hmem⟩ := reorder_eq_ok hrows
    rw [Column.contains, hdistinct]
    exact ih (hmem value hvalue)

end Column

end StripePruning
