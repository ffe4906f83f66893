import Mathlib.Data.Nat.Find
import Mathlib.Order.Bounds.Defs
import StripePruning.Proofs.Bitmap.Counts

/-!
# The set positions of a bitmap

A cursor finds the set positions of a bitmap, the lowest first.  This module
says which position comes next, whatever words lie before it.

* One word.  `Word.lowest_eq` finds the lowest set bit of a word.
* One step.  `Cursor.Left` are the positions that a cursor has not passed, and
  `Cursor.next_isLeast` says that the next one is the least of them.
* One bitmap.  `WellFormed.first?_eq_some` says which position is the first
  one.  `positions` are all of them, and `WellFormed.count_eq_card` counts them.
-/

namespace StripePruning

namespace Word

/-! ## The lowest set bit -/

/-- One less than a number has its lowest set bit cleared and all bits below it set. -/
theorem testBit_pred {n lowest : Nat} (hset : n.testBit lowest = true)
    (hbelow : ∀ bit, bit < lowest → n.testBit bit = false) (bit : Nat) :
    (n - 1).testBit bit
      = if bit < lowest then true else if bit = lowest then false else n.testBit bit := by
  have hlow : n % 2 ^ (lowest + 1) = 2 ^ lowest := by
    apply Nat.eq_of_testBit_eq
    intro i
    rw [Nat.testBit_mod_two_pow, Nat.testBit_two_pow]
    rcases Nat.lt_trichotomy i lowest with hi | rfl | hi
    · simp [hbelow i hi, Nat.ne_of_gt hi]
    · simp [hset]
    · simp [Nat.not_lt.2 hi, Nat.ne_of_lt hi]
  -- The number is a multiple of a power of two and the half of this power.
  obtain ⟨upper, hn⟩ : ∃ upper, n = 2 ^ (lowest + 1) * upper + 2 ^ lowest :=
    ⟨n / 2 ^ (lowest + 1), by rw [← hlow, Nat.div_add_mod]⟩
  have hpos : 0 < 2 ^ lowest := Nat.two_pow_pos lowest
  have hsmall : 2 ^ lowest < 2 ^ (lowest + 1) := Nat.pow_lt_pow_right (by decide) (by omega)
  have hpred : n - 1 = 2 ^ (lowest + 1) * upper + (2 ^ lowest - 1) := by omega
  rw [hpred, Nat.testBit_two_pow_mul_add upper (by omega), hn,
    Nat.testBit_two_pow_mul_add upper hsmall, Nat.testBit_two_pow_sub_one]
  rcases Nat.lt_trichotomy bit lowest with h | rfl | h
  · simp [h, Nat.lt_succ_of_lt h]
  · simp
  · simp [Nat.not_lt.2 h, Nat.not_lt_of_gt h, Nat.ne_of_gt h]

/-- The lowest set bit of a word is found where no lower bit is set. -/
theorem lowest_eq {word : UInt64} {bit : Nat} (hbit : bit < wordBits) (hset : test word bit = true)
    (hbelow : ∀ other, other < bit → test word other = false) : lowest word = bit := by
  have htest : ∀ i, i < wordBits → test word i = word.toNat.testBit i := by
    intro i hi
    rw [test_eq_testBit, Nat.mod_eq_of_lt hi]
  rw [htest bit hbit] at hset
  have hclear : ∀ i, i < bit → word.toNat.testBit i = false := by
    intro i hi
    rw [← htest i (Nat.lt_trans hi hbit)]
    exact hbelow i hi
  have hpos : 0 < word.toNat := by
    apply Nat.pos_of_ne_zero
    intro hzero
    simp [hzero] at hset
  have hlt : word.toNat < 2 ^ 64 := word.toNat_lt
  -- The bits of the negated word above the lowest set bit are those of the word turned around.
  have hneg : (0 - word).toNat = 2 ^ 64 - (word.toNat - 1 + 1) := by
    rw [UInt64.toNat_sub, UInt64.toNat_zero]
    omega
  have hsingle : (word &&& (0 - word)).toNat = 2 ^ bit := by
    apply Nat.eq_of_testBit_eq
    intro i
    rw [UInt64.toNat_and, hneg, Nat.testBit_and, Nat.testBit_two_pow_sub_succ (by omega),
      testBit_pred hset hclear, Nat.testBit_two_pow]
    rcases Nat.lt_trichotomy i bit with hi | rfl | hi
    · simp [hclear i hi, Nat.ne_of_gt hi]
    · simp [hset, show i < 64 from hbit]
    · cases word.toNat.testBit i <;>
        simp [Nat.not_lt_of_gt hi, Nat.ne_of_gt hi, Nat.ne_of_lt hi]
  have hlog : (word &&& (0 - word)).log2.toNat = (word &&& (0 - word)).toNat.log2 := rfl
  rw [lowest, hlog, hsingle, Nat.log2_two_pow]

/-- A word that is not zero has a lowest set bit. -/
theorem test_lowest {word : UInt64} (h : word ≠ 0) :
    lowest word < wordBits ∧ test word (lowest word) = true ∧
      ∀ bit, bit < lowest word → test word bit = false := by
  have hexists : ∃ bit, bit < wordBits ∧ test word bit = true := by
    apply Classical.byContradiction
    intro hnone
    apply h
    apply ext
    intro bit hbit
    rw [test_zero, ← Bool.not_eq_true]
    exact fun hset => hnone ⟨bit, hbit, hset⟩
  obtain ⟨hlt, hset⟩ := Nat.find_spec hexists
  have hbelow : ∀ bit, bit < Nat.find hexists → test word bit = false := by
    intro bit hbit
    rw [← Bool.not_eq_true]
    exact fun hbitSet => Nat.find_min hexists hbit ⟨Nat.lt_trans hbit hlt, hbitSet⟩
  rw [lowest_eq hlt hset hbelow]
  exact ⟨hlt, hset, hbelow⟩

end Word

namespace Cursor

/-! ## One step of a cursor -/

/-- The positions that a cursor has not passed: those of the bits left in the current word,
and those of all bits in the words behind it. -/
def Left (c : Cursor) (position : Nat) : Prop :=
  position / wordBits = c.wordIndex ∧ Word.test c.current position = true ∨
    c.wordIndex < position / wordBits ∧
      Word.test (c.words.getD (position / wordBits) 0) position = true

/-- An empty word has no position left, so nothing is lost on the way to the next word. -/
theorem left_skip {c : Cursor} (hzero : c.current = 0) (hmore : c.wordIndex + 1 < c.words.size)
    (position : Nat) :
    Left { c with wordIndex := c.wordIndex + 1, current := c.words[c.wordIndex + 1] } position
      ↔ c.Left position := by
  have hword : c.words.getD (c.wordIndex + 1) 0 = c.words[c.wordIndex + 1] := by
    simp [hmore]
  simp only [Left, hzero, Word.test_zero, Bool.false_eq_true, and_false, false_or, ← hword]
  constructor
  · rintro (⟨hindex, hset⟩ | ⟨hindex, hset⟩)
    · exact ⟨by omega, hindex ▸ hset⟩
    · exact ⟨by omega, hset⟩
  · rintro ⟨hindex, hset⟩
    rcases Nat.eq_or_lt_of_le hindex with heq | hlt
    · rw [← heq] at hset
      exact Or.inl ⟨heq.symm, hset⟩
    · exact Or.inr ⟨hlt, hset⟩

/-- Behind the last word nothing is left. -/
theorem not_left_of_last {c : Cursor} (hzero : c.current = 0)
    (hmore : ¬ c.wordIndex + 1 < c.words.size) (position : Nat) : ¬ c.Left position := by
  rintro (⟨-, hset⟩ | ⟨hindex, hset⟩)
  · rw [hzero, Word.test_zero] at hset
    exact absurd hset (by decide)
  · have hpast : c.words.size ≤ position / wordBits := by omega
    rw [Array.getD_eq_getD_getElem?, Array.getElem?_eq_none hpast, Option.getD_none,
      Word.test_zero] at hset
    exact absurd hset (by decide)

/-- A turn ends the search at a bit that is left in the word, or behind the last word. -/
theorem turn_eq_some_iff {c rest : Cursor} {answer : Option Nat} : c.turn = (some answer, rest) ↔
    (c.current ≠ 0 ∧ answer = some (c.wordIndex * wordBits + Word.lowest c.current) ∧
        rest = { c with current := Word.clearLowest c.current }) ∨
      (c.current = 0 ∧ ¬ c.wordIndex + 1 < c.words.size ∧ answer = none ∧
        rest = { c with wordIndex := c.wordIndex + 1 }) := by
  unfold turn
  by_cases hcurrent : c.current = 0
  · by_cases hmore : c.wordIndex + 1 < c.words.size
    · simp [hcurrent, hmore]
    · simp [hcurrent, hmore, eq_comm]
  · simp [hcurrent, eq_comm]

/-- The next position is the least of those that are left, and there is none only if none is
left. -/
theorem next_isLeast (c : Cursor) :
    (∀ position, c.next.1 = some position → IsLeast {p | c.Left p} position) ∧
      (c.next.1 = none → ∀ position, ¬ c.Left position) := by
  fun_induction Cursor.next c with
  | case1 c answer rest hturn =>
    rcases turn_eq_some_iff.1 hturn with ⟨hcurrent, rfl, -⟩ | ⟨hcurrent, hmore, rfl, -⟩
    case inr =>
      refine ⟨fun position h => absurd h.symm (Option.some_ne_none _), ?_⟩
      exact fun _ => not_left_of_last hcurrent hmore
    refine ⟨?_, fun h => absurd h (Option.some_ne_none _)⟩
    intro position hposition
    obtain rfl := Option.some.inj hposition
    obtain ⟨hlt, hset, hbelow⟩ := Word.test_lowest hcurrent
    have hdiv : (c.wordIndex * wordBits + Word.lowest c.current) / wordBits = c.wordIndex := by
      rw [Nat.mul_comm, Nat.mul_add_div (by decide), Nat.div_eq_of_lt hlt, Nat.add_zero]
    have hmod : (c.wordIndex * wordBits + Word.lowest c.current) % wordBits
        = Word.lowest c.current := by
      rw [Nat.mul_comm, Nat.mul_add_mod, Nat.mod_eq_of_lt hlt]
    refine ⟨Or.inl ⟨hdiv, ?_⟩, ?_⟩
    · rw [← Word.test_mod, hmod]
      exact hset
    · intro other hother
      have hsplit := Nat.div_add_mod' other wordBits
      rcases hother with ⟨hindex, hotherSet⟩ | ⟨hindex, -⟩
      · have hle : Word.lowest c.current ≤ other % wordBits := by
          apply Nat.le_of_not_lt
          intro hless
          rw [← Word.test_mod, hbelow _ hless] at hotherSet
          exact absurd hotherSet (by decide)
        rw [hindex] at hsplit
        omega
      · have hnext : (c.wordIndex + 1) * wordBits ≤ other / wordBits * wordBits :=
          Nat.mul_le_mul_right wordBits hindex
        rw [Nat.add_mul, Nat.one_mul] at hnext
        omega
  | case2 c rest hturn ih =>
    obtain ⟨hcurrent, hmore, rfl⟩ := turn_eq_none_iff.1 hturn
    simpa only [left_skip hcurrent hmore] using ih

end Cursor

namespace Bitmap

/-! ## The positions of a bitmap -/

/-- Before the first step every set position is left. -/
theorem WellFormed.left_cursor_iff {b : Bitmap} (h : b.WellFormed) {position : Nat} :
    b.cursor.Left position ↔ b.get position = true := by
  rw [h.get_eq, stored, Cursor.Left, cursor]
  constructor
  · rintro (⟨hindex, hset⟩ | ⟨-, hset⟩)
    · rw [hindex]
      exact hset
    · exact hset
  · intro hset
    rcases Nat.eq_zero_or_pos (position / wordBits) with hindex | hindex
    · rw [hindex] at hset
      exact Or.inl ⟨hindex, hset⟩
    · exact Or.inr ⟨hindex, hset⟩

/-- A bitmap has no first position if no bit is set. -/
theorem WellFormed.first?_eq_none {b : Bitmap} (h : b.WellFormed)
    (hclear : ∀ position, b.get position = false) : b.first? = none := by
  cases hfirst : b.first? with
  | none => rfl
  | some position =>
    have hleft := (b.cursor.next_isLeast.1 position hfirst).1
    rw [Set.mem_ofPred_eq, h.left_cursor_iff, hclear] at hleft
    exact absurd hleft (by decide)

/-- The first position of a bitmap is the least one with a set bit. -/
theorem WellFormed.first?_eq_some {b : Bitmap} (h : b.WellFormed) {position : Nat}
    (hset : b.get position = true) (hbelow : ∀ other, other < position → b.get other = false) :
    b.first? = some position := by
  have hleft := h.left_cursor_iff.2 hset
  cases hfirst : b.first? with
  | none => exact absurd hleft (b.cursor.next_isLeast.2 hfirst position)
  | some first =>
    obtain ⟨hmem, hlower⟩ := b.cursor.next_isLeast.1 first hfirst
    have hge : position ≤ first := by
      apply Nat.le_of_not_lt
      intro hlt
      rw [Set.mem_ofPred_eq, h.left_cursor_iff, hbelow first hlt] at hmem
      exact absurd hmem (by decide)
    rw [Nat.le_antisymm hge (hlower hleft)]

/-- All set positions. -/
def positions (b : Bitmap) : Finset Nat :=
  (Finset.range b.len).filter fun position => b.get position = true

@[simp] theorem mem_positions {b : Bitmap} {position : Nat} :
    position ∈ b.positions ↔ b.get position = true := by
  rw [positions, Finset.mem_filter, Finset.mem_range]
  exact ⟨And.right, fun hset => ⟨lt_len_of_get hset, hset⟩⟩

/-- The count of a bitmap is the number of its set positions. -/
theorem WellFormed.count_eq_card {b : Bitmap} (h : b.WellFormed) : b.count = b.positions.card := by
  rw [h.count_eq, Nat.count_eq_card_filter_range, positions]

theorem card_positions_le (b : Bitmap) : b.positions.card ≤ b.len := by
  have hcard := Finset.card_filter_le (Finset.range b.len) fun position => b.get position = true
  rwa [Finset.card_range] at hcard

theorem WellFormed.count_le_len {b : Bitmap} (h : b.WellFormed) : b.count ≤ b.len := by
  rw [h.count_eq_card]
  exact b.card_positions_le

end Bitmap

end StripePruning
