import Mathlib.Data.List.Range
import Mathlib.Data.UInt
import StripePruning.Proofs.Column.Rows

/-!
# Stripes in words

The bounds of a stripe are computed with words, and both the product and the sum in
them may be too large for a word.  They then stop at the greatest word, which is no
harm, since the bounds are cut at the end of the column anyway.

* `toNat_saturatingMul` and `toNat_saturatingAdd` say what the arithmetic comes to, and
  `stripeInWords?_eq` that the stripe is the one of unbounded arithmetic.
* `rowsOfStripe` are the numbers of the rows of a stripe, and `toList_stripe_eq_rows`
  says that the stripe holds their values.
* `size_stripe` gives the length of every stripe, from which it follows which stripes
  are empty and which are full.
* `stripeInWords?_partition` puts this together: the stripes cut the rows of a column
  into pieces.
-/

namespace StripePruning

/-! ## Words -/

theorem toNat_saturatingMul (a b : UInt64) :
    (saturatingMul a b).toNat = min (a.toNat * b.toNat) greatestWord.toNat := by
  have hgreatest : greatestWord.toNat = UInt64.size - 1 := rfl
  rw [saturatingMul, hgreatest]
  by_cases hfits : a.toNat * b.toNat < UInt64.size
  · rw [if_pos hfits, UInt64.toNat_mul, Nat.mod_eq_of_lt hfits]
    omega
  · rw [if_neg hfits, hgreatest]
    omega

theorem toNat_saturatingAdd (a b : UInt64) :
    (saturatingAdd a b).toNat = min (a.toNat + b.toNat) greatestWord.toNat := by
  have hgreatest : greatestWord.toNat = UInt64.size - 1 := rfl
  rw [saturatingAdd, hgreatest]
  by_cases hfits : a.toNat + b.toNat < UInt64.size
  · rw [if_pos hfits, UInt64.toNat_add, Nat.mod_eq_of_lt hfits]
    omega
  · rw [if_neg hfits, hgreatest]
    omega

/-- Rounding up adds one to a quotient that leaves a remainder. -/
theorem add_pred_div {a b : Nat} (hb : 0 < b) :
    (a + (b - 1)) / b = if 0 < a % b then a / b + 1 else a / b := by
  have hsplit : a + (b - 1) = b * (a / b) + (a % b + (b - 1)) := by
    have hdiv := Nat.div_add_mod a b
    omega
  have hmod : a % b < b := Nat.mod_lt a hb
  rw [hsplit, Nat.mul_add_div hb]
  by_cases hrest : 0 < a % b
  · have hone : (a % b + (b - 1)) / b = 1 := Nat.div_eq_of_lt_le (by omega) (by omega)
    rw [if_pos hrest, hone]
  · have hnone : (a % b + (b - 1)) / b = 0 := Nat.div_eq_of_lt (by omega)
    rw [if_neg hrest, hnone, Nat.add_zero]

/-- A quotient of words is rounded up without a sum that is too large for a word. -/
theorem toNat_ceilDiv {a b : UInt64} (hb : b ≠ 0) :
    (ceilDiv a b).toNat = (a.toNat + (b.toNat - 1)) / b.toNat := by
  have hpos : 0 < b.toNat := Nat.pos_of_ne_zero fun h => hb (UInt64.toNat_inj.1 h)
  have hmod : a.toNat % b.toNat < b.toNat := Nat.mod_lt _ hpos
  have hrest : 0 < a % b ↔ 0 < a.toNat % b.toNat := by
    rw [UInt64.lt_iff_toNat_lt, UInt64.toNat_mod]
    rfl
  rw [ceilDiv, add_pred_div hpos]
  by_cases hzero : 0 < a.toNat % b.toNat
  -- A divisor that leaves a remainder is two at least, so the quotient is far from the end.
  · have hlt : a.toNat < 2 ^ 64 := a.toNat_lt
    have hhalf : a.toNat / b.toNat ≤ a.toNat / 2 := Nat.div_le_div_left (by omega) (by decide)
    rw [if_pos (hrest.2 hzero), if_pos hzero, UInt64.toNat_add, UInt64.toNat_div,
      UInt64.toNat_one]
    exact Nat.mod_eq_of_lt (by omega)
  · rw [if_neg (fun h => hzero (hrest.1 h)), if_neg hzero, UInt64.toNat_div]

namespace Column

variable {c : Column} {stripeSize : Nat}

/-! ## Cutting with words -/

/-- A column has so few rows that their number is a word. -/
theorem toNat_numRows (hrows : c.numRows < UInt64.size) :
    c.numRows.toUInt64.toNat = c.numRows :=
  UInt64.toNat_ofNat_of_lt hrows

theorem toNat_numStripesInWords (hrows : c.numRows < UInt64.size) (stripeSize : UInt64) :
    (c.numStripesInWords stripeSize).toNat = c.numStripes stripeSize.toNat := by
  rw [numStripesInWords, numStripes]
  by_cases hsize : stripeSize = 0
  · rw [if_pos hsize, hsize]
    rfl
  · have hpos : stripeSize.toNat ≠ 0 := fun h => hsize (UInt64.toNat_inj.1 h)
    rw [if_neg hsize, if_neg hpos, toNat_ceilDiv hsize, toNat_numRows hrows]

/-- Whatever the size and the number of a stripe, it is cut out, and it is the stripe that
unbounded arithmetic gives. -/
theorem stripeInWords?_eq (hrows : c.numRows < UInt64.size) (stripeSize id : UInt64) :
    c.stripeInWords? stripeSize id = some (c.stripe stripeSize.toNat id.toNat) := by
  have hgreatest : greatestWord.toNat = UInt64.size - 1 := rfl
  -- The end of the column lies below the greatest word, so it hides where a bound stopped.
  have hfirst : (min (saturatingMul stripeSize id) c.numRows.toUInt64).toNat
      = min (stripeSize.toNat * id.toNat) c.numRows := by
    rw [UInt64.toNat_min, toNat_saturatingMul, toNat_numRows hrows]
    omega
  have hlast : (min (saturatingAdd (min (saturatingMul stripeSize id) c.numRows.toUInt64)
        stripeSize) c.numRows.toUInt64).toNat
      = min (min (stripeSize.toNat * id.toNat) c.numRows + stripeSize.toNat) c.numRows := by
    rw [UInt64.toNat_min, toNat_saturatingAdd, hfirst, toNat_numRows hrows]
    omega
  have hsize : c.values.size = c.numRows := rfl
  simp only [stripeInWords?, slice?, UInt64.le_iff_toNat_le, hfirst, hlast, stripe]
  exact if_pos (by omega)

/-! ## The rows of a stripe -/

/-- The numbers of the rows of a stripe in ascending order.  Without rows in a stripe
there are none. -/
def rowsOfStripe (c : Column) (stripeSize id : Nat) : List Nat :=
  (List.range c.numRows).filter fun row => 0 < stripeSize ∧ row / stripeSize = id

theorem mem_rowsOfStripe {stripeSize id row : Nat} :
    row ∈ c.rowsOfStripe stripeSize id ↔
      row < c.numRows ∧ 0 < stripeSize ∧ row / stripeSize = id := by
  simp [rowsOfStripe]

/-- The rows of a stripe follow each other. -/
theorem rowsOfStripe_eq (c : Column) (stripeSize id : Nat) :
    c.rowsOfStripe stripeSize id
      = List.range' (stripeSize * id) (min stripeSize (c.numRows - stripeSize * id)) := by
  have hrows : (c.rowsOfStripe stripeSize id).Pairwise (· < ·) :=
    List.pairwise_lt_range.filter _
  refine hrows.eq_of_mem_iff List.pairwise_lt_range' fun row => ?_
  rw [mem_rowsOfStripe, List.mem_range'_1]
  rcases Nat.eq_zero_or_pos stripeSize with rfl | hsize
  · omega
  · rw [Nat.div_eq_iff hsize, Nat.mul_comm id]
    omega

theorem size_stripe (c : Column) (stripeSize id : Nat) :
    (c.stripe stripeSize id).size = min stripeSize (c.numRows - stripeSize * id) := by
  rw [← Array.length_toList, toList_stripe, List.length_take, List.length_drop,
    Array.length_toList]
  rfl

/-- A stripe holds the values of its rows in their order. -/
theorem toList_stripe_eq_rows (c : Column) (stripeSize id : Nat) :
    (c.stripe stripeSize id).toList = (c.rowsOfStripe stripeSize id).filterMap c.valueAt? := by
  have hvalues : ∀ row ∈ c.rowsOfStripe stripeSize id,
      c.valueAt? row = some (c.values.getD row nullValue) := by
    intro row hrow
    have hlt : row < c.values.size := (mem_rowsOfStripe.1 hrow).1
    simp [valueAt?, hlt]
  rw [List.filterMap_eq_map_iff_forall_eq_some.2 hvalues, rowsOfStripe_eq]
  apply List.ext_getElem
  · rw [Array.length_toList, size_stripe, List.length_map, List.length_range']
  · intro i hi _
    have hlt : stripeSize * id + i < c.values.size := by
      show stripeSize * id + i < c.numRows
      rw [Array.length_toList, size_stripe] at hi
      omega
    simp [toList_stripe, hlt]

/-! ## All stripes -/

/-- The chunks put together are the whole list. -/
theorem flatten_chunks {α : Type} {size : Nat} (hsize : 0 < size) (values : List α) :
    (chunks size values).flatten = values := by
  fun_induction chunks size values with
  | case1 => rfl
  | case2 value rest hzero => omega
  | case3 value rest hzero ih =>
    have hdrop : rest.drop (size - 1) = (value :: rest).drop size := by
      rw [← Nat.succ_pred_eq_of_pos hsize, List.drop_succ_cons]
      rfl
    rw [List.flatten_cons, ih, hdrop, List.take_append_drop]

theorem stripe_ne_empty_iff (hsize : 0 < stripeSize) {id : Nat} :
    c.stripe stripeSize id ≠ #[] ↔ id < c.numStripes stripeSize := by
  rw [lt_numStripes_iff hsize, ne_eq, ← Array.size_eq_zero_iff, size_stripe]
  omega

/-- All stripes but the last one are full. -/
theorem size_stripe_of_lt (hsize : 0 < stripeSize) {id : Nat}
    (h : id + 1 < c.numStripes stripeSize) : (c.stripe stripeSize id).size = stripeSize := by
  rw [lt_numStripes_iff hsize, Nat.mul_add] at h
  rw [size_stripe]
  omega

/-- A stripe of any size and number that are words can be cut out of a column, also where
the product or the sum in its bounds is too large for a word, and it holds the values of
its rows in their order.  Stripes of at least one row cut the column into pieces: there
are as many as the number of stripes says, each of them has a row and all but the last
are full, they are the chunks that indexes are built over, and put together they are the
column.  Behind them all stripes are empty. -/
theorem stripeInWords?_partition (hrows : c.numRows < UInt64.size) (stripeSize : UInt64) :
    (∀ id : UInt64,
      c.stripeInWords? stripeSize id = some (c.stripe stripeSize.toNat id.toNat) ∧
        (c.stripe stripeSize.toNat id.toNat).toList
          = (c.rowsOfStripe stripeSize.toNat id.toNat).filterMap c.valueAt?) ∧
      (0 < stripeSize → ∃ count, (c.numStripesInWords stripeSize).toNat = count ∧
        (c.stripes stripeSize.toNat).length = count ∧
        (∀ id, id < count → c.stripe stripeSize.toNat id ≠ #[]) ∧
        (∀ id, id + 1 < count → (c.stripe stripeSize.toNat id).size = stripeSize.toNat) ∧
        (∀ id, count ≤ id → c.stripe stripeSize.toNat id = #[]) ∧
        c.stripes stripeSize.toNat = chunks stripeSize.toNat c.values.toList ∧
        (c.stripes stripeSize.toNat).flatten = c.values.toList) := by
  constructor
  · intro id
    exact ⟨stripeInWords?_eq hrows stripeSize id, toList_stripe_eq_rows c _ _⟩
  · intro hpos
    have hsize : 0 < stripeSize.toNat := UInt64.lt_iff_toNat_lt.1 hpos
    have hchunks := chunks_eq_stripes c hsize
    refine ⟨_, rfl, ?_⟩
    rw [toNat_numStripesInWords hrows]
    refine ⟨length_stripes c _, fun id hid => (stripe_ne_empty_iff hsize).2 hid,
      fun id hid => size_stripe_of_lt hsize hid, fun id hid => ?_, hchunks.symm, ?_⟩
    · by_contra hne
      have hlt := (stripe_ne_empty_iff hsize).1 hne
      omega
    · rw [← hchunks, flatten_chunks hsize]

/-- Five rows. -/
def fiveRows : Column := Column.ofValues "c" #[5, 6, 7, 8, 9]

/-- In stripes of two rows the last one is not full.  Twice the size of the large stripes
is no word. -/
theorem stripeInWords?_partition_five_rows :
    fiveRows.numRows < UInt64.size ∧ (0 : UInt64) < 2 ∧
      fiveRows.stripeInWords? 2 2 = some #[9] ∧ (fiveRows.stripes 2).length = 3 ∧
      fiveRows.stripeInWords? 9223372036854775809 0 = some #[5, 6, 7, 8, 9] ∧
      fiveRows.stripeInWords? 9223372036854775809 2 = some #[] := by
  have hrows : fiveRows.numRows < UInt64.size := by decide
  have hpos : (0 : UInt64) < 2 := by decide
  obtain ⟨htwo, hstripes⟩ := stripeInWords?_partition hrows 2
  obtain ⟨count, hcount, hlength, -⟩ := hstripes hpos
  obtain ⟨hlarge, -⟩ := stripeInWords?_partition hrows 9223372036854775809
  refine ⟨hrows, hpos, (htwo 2).1.trans ?_, hlength.trans (hcount.symm.trans ?_),
    (hlarge 0).1.trans ?_, (hlarge 2).1.trans ?_⟩ <;> decide

end Column

end StripePruning
