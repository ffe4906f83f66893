import StripePruning.Index.PerStripeBloom
import StripePruning.Proofs.Bitmap.Bits
import StripePruning.Proofs.Column.Rows
import StripePruning.Proofs.Steps

/-!
# Filters find what was inserted

A split block filter never denies a value that was inserted into it, whatever
the hash of the value and the size of the filter.  An insertion only adds bits,
so a value that is found once is found after every later insertion.

* `mem_bits_insert` is the one fact about an insertion: the bits of the filter
  afterwards are those before it and those of the value.
* `mem_bits_foldl` is the run over a list of values, and `mem_bits_ofValues` what
  it leaves of the values: only the set of them.
* `build_eq_ok_iff` says when the filters of a column can be built and what they
  are, and `build_sound` what they answer.
-/

namespace StripePruning

namespace BlockFilter

/-! ## One insertion -/

theorem mem_foldl_insert (added : List Nat) (bits : Std.HashSet Nat) (bit : Nat) :
    bit ∈ added.foldl (·.insert ·) bits ↔ bit ∈ added ∨ bit ∈ bits := by
  induction added generalizing bits with
  | nil => simp
  | cons first rest ih =>
    rw [List.foldl_cons, ih, Std.HashSet.mem_insert, List.mem_cons, beq_iff_eq, eq_comm]
    tauto

theorem bytes_insert (f : BlockFilter) (value : Int64) : (f.insert value).bytes = f.bytes := by
  rw [insert]

/-- The bits of a value depend on the size of the filter, which an insertion
keeps. -/
theorem bitsOf_insert (f : BlockFilter) (value other : Int64) :
    (f.insert value).bitsOf other = f.bitsOf other := by
  rw [bitsOf, bitsOf, blocks, blocks, bytes_insert]

/-- An insertion adds the bits of its value and keeps all others. -/
theorem mem_bits_insert (f : BlockFilter) (value : Int64) (bit : Nat) :
    bit ∈ (f.insert value).bits ↔ bit ∈ f.bitsOf value ∨ bit ∈ f.bits := by
  rw [insert]
  exact mem_foldl_insert _ _ _

theorem mayContain_iff (f : BlockFilter) (value : Int64) :
    f.mayContain value = true ↔ ∀ bit, bit ∈ f.bitsOf value → bit ∈ f.bits := by
  simp only [mayContain, List.all_eq_true, Std.HashSet.contains_iff_mem]

/-! ## All insertions -/

theorem bytes_ofValues (bytes : Nat) (values : List Int64) :
    (ofValues bytes values).bytes = bytes := by
  have hfold : ∀ f : BlockFilter, (values.foldl insert f).bytes = f.bytes := by
    induction values with
    | nil => exact fun _ => rfl
    | cons first rest ih =>
      intro f
      rw [List.foldl_cons, ih, bytes_insert]
  exact hfold (empty bytes)

/-- A run of insertions adds the bits of its values, whatever their order and however often
each of them comes. -/
theorem mem_bits_foldl (values : List Int64) (f : BlockFilter) (bit : Nat) :
    bit ∈ (values.foldl insert f).bits ↔
      (∃ value, value ∈ values ∧ bit ∈ f.bitsOf value) ∨ bit ∈ f.bits := by
  -- Each step leaves another filter, so the filter is not fixed in the induction.
  induction values generalizing f with
  | nil => simp
  | cons first rest ih =>
    rw [List.foldl_cons, ih, mem_bits_insert]
    simp only [bitsOf_insert, List.mem_cons, exists_eq_or_imp]
    rw [or_left_comm, or_assoc]

/-- The bits of a filter are those of its values. -/
theorem mem_bits_ofValues (bytes : Nat) (values : List Int64) (bit : Nat) :
    bit ∈ (ofValues bytes values).bits ↔
      ∃ value, value ∈ values ∧ bit ∈ (ofValues bytes values).bitsOf value := by
  have hbits : ∀ value, (ofValues bytes values).bitsOf value = (empty bytes).bitsOf value := by
    intro value
    simp only [bitsOf, blocks, bytes_ofValues, empty]
  have hempty : ¬ bit ∈ (empty bytes).bits := by simp [empty]
  simp only [hbits]
  exact (mem_bits_foldl values (empty bytes) bit).trans (or_iff_left hempty)

/-- The filter of some values finds each of them. -/
theorem mayContain_ofValues (bytes : Nat) {values : List Int64} {value : Int64}
    (h : value ∈ values) : (ofValues bytes values).mayContain value = true := by
  rw [mayContain_iff]
  intro bit hbit
  exact (mem_bits_ofValues bytes values bit).2 ⟨value, h, hbit⟩

end BlockFilter

namespace PerStripeBloom

/-! ## The filters of a column -/

/-- The filters of the stripes, one for each chunk of the rows and all of one
size. -/
def ofChunks (pieces : List (List Int64)) (probability : Float) : PerStripeBloom :=
  let bytes := BlockFilter.bytesFor (widestStripe pieces) probability
  { probability, filters := (pieces.map (BlockFilter.ofValues bytes)).toArray }

/-- The filters can be built for a stripe size and a probability in range, as
long as there are not too many stripes. -/
theorem build_eq_ok_iff {c : Column} {stripeSize : Nat} {probability : Float}
    {p : PerStripeBloom} :
    build c stripeSize probability = .ok p ↔
      0 < stripeSize ∧ (0.0 < probability && probability < 1.0) = true ∧
        c.numStripes stripeSize ≤ maxStripes ∧
        p = ofChunks (chunks stripeSize c.values.toList) probability := by
  rw [build, checkStripeSize_bind_eq_ok]
  refine and_congr_right fun hsize => ?_
  rw [← Column.length_chunks c hsize]
  cases hrange : (0.0 < probability && probability < 1.0) with
  | false => simp [bind, Except.bind]
  | true =>
    by_cases hmany : maxStripes < (chunks stripeSize c.values.toList).length
    · simp [bind, Except.bind, hmany]
    · have hle := Nat.le_of_not_lt hmany
      simp [pure, Except.pure, hmany, hle, ofChunks, eq_comm]

section Built

variable {c : Column} {stripeSize : Nat} {probability : Float} {p : PerStripeBloom}

/-- There is one filter for each stripe. -/
theorem numStripes_of_build (h : build c stripeSize probability = .ok p) :
    p.numStripes = c.numStripes stripeSize := by
  obtain ⟨hsize, -, -, rfl⟩ := build_eq_ok_iff.1 h
  rw [numStripes, ofChunks, List.size_toArray, List.length_map, Column.length_chunks c hsize]

/-- The filter of a stripe finds every value of the stripe. -/
theorem mayContain_of_build (h : build c stripeSize probability = .ok p) {id : Nat}
    {value : Int64} (hvalue : c.stripeContains stripeSize id value = true) :
    p.mayContain id value = true := by
  obtain ⟨hsize, -, -, rfl⟩ := build_eq_ok_iff.1 h
  obtain ⟨chunk, hchunk, hmem⟩ := (Column.exists_chunk_iff c hsize).2 hvalue
  have hfilter : (ofChunks (chunks stripeSize c.values.toList) probability).filters[id]?
      = some (BlockFilter.ofValues (BlockFilter.bytesFor
          (widestStripe (chunks stripeSize c.values.toList)) probability) chunk) := by
    rw [ofChunks, List.getElem?_toArray, List.getElem?_map, hchunk, Option.map_some]
  rw [mayContain, hfilter]
  exact BlockFilter.mayContain_ofValues _ hmem

/-- There is nothing past the last stripe. -/
theorem mayContain_eq_false (p : PerStripeBloom) {id : Nat} (hid : p.numStripes ≤ id)
    (value : Int64) : p.mayContain id value = false := by
  rw [mayContain, Array.getElem?_eq_none hid]

end Built

/-- The filters of a column that could be built are as many as its stripes.
They never deny a value, the null value included, to the stripe of a row that
holds it, and they name no stripe past the last.  An answer for `n` stripes has
`n` bits, one for each stripe. -/
theorem build_sound {c : Column} {stripeSize : Nat} {probability : Float} {p : PerStripeBloom}
    (h : build c stripeSize probability = .ok p) :
    p.numStripes = c.numStripes stripeSize ∧
      (∀ row value, c.valueAt? row = some value →
        StripeIndex.stripeContains p (row / stripeSize) value = true) ∧
      (∀ id value, p.numStripes ≤ id → StripeIndex.stripeContains p id value = false) ∧
      ∀ value n, (StripeIndex.qualifyingStripes p value n).len = n ∧
        ∀ id, (StripeIndex.qualifyingStripes p value n).get id
          = (decide (id < n) && StripeIndex.stripeContains p id value) := by
  have hsize : 0 < stripeSize := (build_eq_ok_iff.1 h).1
  refine ⟨numStripes_of_build h, fun row value hrow => ?_, fun id value hid => ?_,
    fun value n => ⟨rfl, fun id => Bitmap.get_ofFn n _ id⟩⟩
  · exact mayContain_of_build h ((Column.stripeContains_iff hsize).2 ⟨row, hrow, rfl⟩)
  · exact mayContain_eq_false p hid value

/-- Three stripes of two rows, the last one with one row only, and a null value
in the first. -/
theorem build_sound_partial_stripe :
    ∃ p, build (Column.ofValues "c" #[7, Column.nullValue, 7, 8, 9]) 2 0.01 = .ok p ∧
      p.numStripes = 3 ∧
      StripeIndex.stripeContains p 0 Column.nullValue = true ∧
      StripeIndex.stripeContains p 2 (9 : Int64) = true ∧
      StripeIndex.stripeContains p 3 (7 : Int64) = false ∧
      (StripeIndex.qualifyingStripes p 9 5).get 2 = true := by
  obtain ⟨p, hp⟩ : ∃ p, build (Column.ofValues "c" #[7, Column.nullValue, 7, 8, 9]) 2 0.01
      = .ok p :=
    ⟨_, build_eq_ok_iff.2 ⟨by decide, by decide, by decide, rfl⟩⟩
  obtain ⟨hstripes, hrows, hpast, hanswer⟩ := build_sound hp
  have hthree : p.numStripes = 3 := hstripes.trans (by decide)
  have hnine : StripeIndex.stripeContains p 2 (9 : Int64) = true := hrows 4 9 rfl
  refine ⟨p, hp, hthree, hrows 1 Column.nullValue rfl, hnine, ?_, ?_⟩
  · exact hpast 3 7 (Nat.le_of_eq hthree)
  · rw [(hanswer 9 5).2 2, hnine]
    rfl

end PerStripeBloom

end StripePruning
