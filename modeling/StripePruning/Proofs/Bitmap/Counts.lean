import Mathlib.Data.Nat.Count
import Mathlib.Order.Interval.Finset.Nat
import StripePruning.Proofs.Bitmap.Bits

/-!
# Counting set bits

The set bits of a bitmap are counted word by word, and those of a word by
shifting it to the right.  `Bitmap.WellFormed.count_eq` says that this is the
number of positions with a set bit, and `count_ofFn_interval` how many there
are between two positions.
-/

namespace StripePruning

namespace Word

/-- Shifting a word to the right moves every bit one place down. -/
theorem testBit_shiftRight_one (word : UInt64) (bit : Nat) :
    (word >>> 1).toNat.testBit bit = word.toNat.testBit (bit + 1) := by
  rw [UInt64.toNat_shiftRight, Nat.testBit_shiftRight, Nat.add_comm]
  rfl

theorem toNat_and_one (word : UInt64) :
    (word &&& 1).toNat = if word.toNat.testBit 0 = true then 1 else 0 := by
  rw [UInt64.toNat_and, UInt64.toNat_one, Nat.and_one_is_mod, Nat.testBit_zero]
  rcases Nat.mod_two_eq_zero_or_one word.toNat with h | h <;> simp [h]

theorem countBelow_eq (count : Nat) (word : UInt64) :
    countBelow count word = Nat.count (fun bit => word.toNat.testBit bit = true) count := by
  induction count generalizing word with
  | zero => rfl
  | succ count ih =>
    rw [countBelow]
    split
    · rename_i hzero
      subst hzero
      have hnone : ∀ bit, bit < count + 1 → ¬ (0 : UInt64).toNat.testBit bit = true := by
        intro bit _
        simp
      exact (Nat.count_iff_forall_not.2 hnone).symm
    · rw [ih, toNat_and_one, Nat.count_succ', Nat.add_comm]
      simp only [testBit_shiftRight_one]

/-- The count of a word is the number of its set bits. -/
theorem count_eq (word : UInt64) :
    count word = Nat.count (fun bit => test word bit = true) wordBits := by
  rw [count, countBelow_eq, Nat.count_eq_card_filter_range, Nat.count_eq_card_filter_range]
  apply congrArg Finset.card
  apply Finset.filter_congr
  intro bit hbit
  rw [test_eq_testBit, Nat.mod_eq_of_lt (Finset.mem_range.1 hbit)]

end Word

namespace Bitmap

/-- The bits of the words behind the first one come after its bits. -/
theorem count_words (words : List UInt64) (total : Nat) :
    words.foldl (fun total word => total + Word.count word) total
      = total + Nat.count (fun position =>
          Word.test (words.getD (position / wordBits) 0) position = true)
          (wordBits * words.length) := by
  induction words generalizing total with
  | nil => simp
  | cons word rest ih =>
    have hsize : wordBits * (word :: rest).length = wordBits + wordBits * rest.length := by
      rw [List.length_cons, Nat.mul_add, Nat.mul_one, Nat.add_comm]
    have hfirst : Nat.count (fun position =>
        Word.test ((word :: rest).getD (position / wordBits) 0) position = true) wordBits
          = Word.count word := by
      rw [Word.count_eq, Nat.count_eq_card_filter_range, Nat.count_eq_card_filter_range]
      apply congrArg Finset.card
      apply Finset.filter_congr
      intro bit hbit
      rw [Nat.div_eq_of_lt (Finset.mem_range.1 hbit), List.getD_cons_zero]
    have hrest : ∀ position,
        Word.test ((word :: rest).getD ((wordBits + position) / wordBits) 0)
          (wordBits + position)
          = Word.test (rest.getD (position / wordBits) 0) position := by
      intro position
      rw [Nat.add_div_left position (by decide), List.getD_cons_succ,
        ← Word.test_mod _ (wordBits + position), Nat.add_mod_left, Word.test_mod]
    rw [List.foldl_cons, ih, hsize, Nat.count_add, hfirst]
    simp only [hrest]
    omega

/-- The count of a bitmap in its normal form is the number of its set bits. -/
theorem WellFormed.count_eq {b : Bitmap} (h : b.WellFormed) :
    b.count = Nat.count (fun position => b.get position = true) b.len := by
  have hsize : b.words.toList.length = wordsFor b.len := h.1
  obtain ⟨surplus, hsurplus⟩ : ∃ surplus, wordBits * wordsFor b.len = b.len + surplus := by
    refine ⟨wordBits * wordsFor b.len - b.len, ?_⟩
    simp only [wordsFor, wordBits]
    omega
  -- No bit is set in what the last word has beyond the length.
  have hnone : Nat.count (fun k => b.get (b.len + k) = true) surplus = 0 := by
    rw [Nat.count_iff_forall_not]
    intro k _
    simp [get_eq_stored]
  have hstored : ∀ position, Word.test (b.words.toList.getD (position / wordBits) 0) position
      = b.get position := by
    intro position
    rw [h.get_eq, stored, Array.getD_eq_getD_getElem?, List.getD_eq_getElem?_getD,
      Array.getElem?_toList]
  rw [count, ← Array.foldl_toList, count_words, hsize, hsurplus, Nat.zero_add]
  simp only [hstored]
  rw [Nat.count_add, hnone, Nat.add_zero]

/-- A bitmap whose set bits are those from `first` to `last`. -/
theorem count_ofFn_interval {len first last : Nat} {bits : Nat → Bool} (hlast : last < len)
    (hbits : ∀ position, bits position = true ↔ first ≤ position ∧ position ≤ last) :
    (ofFn len bits).count = last + 1 - first := by
  have hinterval : (Finset.range len).filter (fun position => (ofFn len bits).get position = true)
      = Finset.Icc first last := by
    ext position
    rw [Finset.mem_filter, Finset.mem_range, Finset.mem_Icc, get_ofFn, Bool.and_eq_true,
      decide_eq_true_eq, hbits]
    omega
  rw [(wellFormed_ofFn len bits).count_eq, Nat.count_eq_card_filter_range, len_ofFn, hinterval,
    Nat.card_Icc]

end Bitmap

end StripePruning
