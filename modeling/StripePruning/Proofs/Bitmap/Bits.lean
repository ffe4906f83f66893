import Mathlib.Data.Nat.Bitwise
import StripePruning.Bitmap.Cursor

/-!
# Bitmaps bit by bit

A bitmap is packed into words, and all its operations work on words.  This
module says what they do to single bits, so that no later proof opens a word.

There are three groups.

* One word.  `Word.test_eq_testBit` reads a bit as a bit of a natural number,
  and the lemmas below it give the bits of every operation on words.
* One bitmap.  `stored` is the bit at a position, past the end too.  Each
  operation has a lemma for its stored bits and one for its normal form.
* The normal form.  `WellFormed.eq_ofFn` says that a well-formed bitmap is
  `ofFn` of its length and its bits.  `union_ofFn` and `difference_ofFn`
  compute in this form, so that proofs about answers of indexes only compare
  functions from stripes to `Bool`.
-/

namespace StripePruning

namespace Word

/-! ## The bits of a word -/

/-- The word with one set bit is a power of two. -/
theorem toNat_single (bit : Nat) : (single bit).toNat = 2 ^ (bit % wordBits) := by
  have hlt : bit % wordBits < 64 := Nat.mod_lt bit (by decide)
  have hpow : 2 ^ (bit % wordBits) < 2 ^ 64 := Nat.pow_lt_pow_right (by decide) hlt
  have hof : (UInt64.ofNat (bit % wordBits)).toNat = bit % wordBits :=
    UInt64.toNat_ofNat_of_lt' (Nat.lt_trans hlt (by decide))
  rw [single, UInt64.toNat_shiftLeft, hof, Nat.mod_eq_of_lt hlt, UInt64.toNat_one,
    Nat.one_shiftLeft, Nat.mod_eq_of_lt hpow]

/-- A bit of a word is a bit of the number that it stands for. -/
theorem test_eq_testBit (word : UInt64) (bit : Nat) :
    test word bit = word.toNat.testBit (bit % wordBits) := by
  have hand : (word &&& single bit).toNat
      = (word.toNat.testBit (bit % wordBits)).toNat * 2 ^ (bit % wordBits) := by
    rw [UInt64.toNat_and, toNat_single, Nat.and_two_pow]
  have hpow : 2 ^ (bit % wordBits) ≠ 0 := by simp
  have hne : word &&& single bit ≠ 0 ↔ (word &&& single bit).toNat ≠ 0 := by
    rw [ne_eq, ne_eq, ← UInt64.toNat_inj, UInt64.toNat_zero]
  rw [Bool.eq_iff_iff, test, bne_iff_ne, hne, hand]
  cases word.toNat.testBit (bit % wordBits) <;> simp

/-- Only the place within the word counts. -/
theorem test_mod (word : UInt64) (bit : Nat) : test word (bit % wordBits) = test word bit := by
  rw [test_eq_testBit, test_eq_testBit, Nat.mod_mod]

@[simp] theorem test_zero (bit : Nat) : test 0 bit = false := by
  rw [test_eq_testBit, UInt64.toNat_zero, Nat.zero_testBit]

@[simp] theorem test_or (a b : UInt64) (bit : Nat) :
    test (a ||| b) bit = (test a bit || test b bit) := by
  simp only [test_eq_testBit, UInt64.toNat_or, Nat.testBit_or]

@[simp] theorem test_and (a b : UInt64) (bit : Nat) :
    test (a &&& b) bit = (test a bit && test b bit) := by
  simp only [test_eq_testBit, UInt64.toNat_and, Nat.testBit_and]

@[simp] theorem test_not (word : UInt64) (bit : Nat) : test (~~~word) bit = !test word bit := by
  have hlt : bit % wordBits < 64 := Nat.mod_lt bit (by decide)
  have hsub : UInt64.size - 1 - word.toNat = 2 ^ 64 - (word.toNat + 1) := by
    simp only [UInt64.size]
    omega
  rw [test_eq_testBit, test_eq_testBit, UInt64.toNat_not, hsub,
    Nat.testBit_two_pow_sub_succ word.toNat_lt, decide_eq_true hlt, Bool.true_and]

theorem test_single (bit other : Nat) :
    test (single bit) other = decide (bit % wordBits = other % wordBits) := by
  rw [test_eq_testBit, toNat_single, Nat.testBit_two_pow]

/-- An update changes the bit it names and no other. -/
theorem test_update (word : UInt64) (bit other : Nat) (value : Bool) :
    test (update word bit value) other
      = if bit % wordBits = other % wordBits then value else test word other := by
  cases value with
  | true =>
    by_cases h : bit % wordBits = other % wordBits <;>
      simp [update, test_single, h]
  | false =>
    by_cases h : bit % wordBits = other % wordBits <;>
      simp [update, test_single, h]

private theorem test_ofBitsBelow (bits : Nat → Bool) :
    ∀ (count : Nat), count ≤ wordBits → ∀ (bit : Nat),
      test (ofBitsBelow bits count) bit
        = (decide (bit % wordBits < count) && bits (bit % wordBits)) := by
  intro count
  induction count with
  | zero =>
    intro _ bit
    simp [ofBitsBelow]
  | succ count ih =>
    intro hle bit
    have hcount : count % wordBits = count := Nat.mod_eq_of_lt hle
    have hword := ih (by omega) bit
    rw [ofBitsBelow]
    by_cases hbit : bit % wordBits = count
    · by_cases hset : bits count = true
      · simp [hset, hbit, test_single, hcount]
      · simp [hset, hbit, hword]
    · have hlt : bit % wordBits < count + 1 ↔ bit % wordBits < count := by omega
      have hsingle : test (single count) bit = false := by
        simp [test_single, hcount, Ne.symm hbit]
      split <;> simp [hword, hlt, hsingle]

/-- The bits that a word is made of are its bits. -/
@[simp] theorem test_ofBits (bits : Nat → Bool) (bit : Nat) :
    test (ofBits bits) bit = bits (bit % wordBits) := by
  have hlt : bit % wordBits < wordBits := Nat.mod_lt bit (by decide)
  rw [ofBits, test_ofBitsBelow bits wordBits (Nat.le_refl _), decide_eq_true hlt, Bool.true_and]

/-- Two words with the same bits are equal. -/
theorem ext {a b : UInt64} (h : ∀ bit, bit < wordBits → test a bit = test b bit) : a = b := by
  rw [← UInt64.toNat_inj]
  apply Nat.eq_of_testBit_eq
  intro bit
  by_cases hlt : bit < wordBits
  · have hbit := h bit hlt
    rwa [test_eq_testBit, test_eq_testBit, Nat.mod_eq_of_lt hlt] at hbit
  · have hpow : 2 ^ 64 ≤ 2 ^ bit := Nat.pow_le_pow_right (by decide) (Nat.le_of_not_lt hlt)
    rw [Nat.testBit_lt_two_pow (Nat.lt_of_lt_of_le a.toNat_lt hpow),
      Nat.testBit_lt_two_pow (Nat.lt_of_lt_of_le b.toNat_lt hpow)]

end Word

namespace Bitmap

/-! ## The bits of a bitmap -/

/-- The bit that the words hold for a position.  Past the end of the bitmap it
may be set, unless the bitmap is well formed. -/
def stored (b : Bitmap) (position : Nat) : Bool :=
  Word.test (b.words.getD (position / wordBits) 0) position

theorem get_eq_stored (b : Bitmap) (position : Nat) :
    b.get position = (decide (position < b.len) && b.stored position) := rfl

theorem lt_len_of_get {b : Bitmap} {position : Nat} (hset : b.get position = true) :
    position < b.len := by
  rw [get_eq_stored, Bool.and_eq_true, decide_eq_true_eq] at hset
  exact hset.1

/-- A position past the last word has no set bit. -/
theorem stored_eq_false {b : Bitmap} {position : Nat}
    (h : b.words.size ≤ position / wordBits) : b.stored position = false := by
  rw [stored, Array.getD_eq_getD_getElem?, Array.getElem?_eq_none h]
  exact Word.test_zero position

/-- The last position lies in the last word. -/
theorem div_lt_wordsFor {len position : Nat} (h : position < len) :
    position / wordBits < wordsFor len := by
  simp only [wordsFor, wordBits]
  omega

@[simp] theorem len_zeros (len : Nat) : (zeros len).len = len := rfl

@[simp] theorem len_ofFn (len : Nat) (bits : Nat → Bool) : (ofFn len bits).len = len := rfl

theorem stored_zeros (len position : Nat) : (zeros len).stored position = false := by
  rw [stored, zeros, Array.getD_eq_getD_getElem?, Array.getElem?_replicate]
  split <;> exact Word.test_zero position

theorem stored_ofFn (len : Nat) (bits : Nat → Bool) (position : Nat) :
    (ofFn len bits).stored position = (decide (position < len) && bits position) := by
  have hsplit : position / wordBits * wordBits + position % wordBits = position :=
    Nat.div_add_mod' position wordBits
  by_cases hword : position / wordBits < wordsFor len
  · simp [stored, ofFn, hword, hsplit]
  · have hend : ¬ position < len := fun h => hword (div_lt_wordsFor h)
    rw [stored_eq_false (by simpa [ofFn] using hword)]
    simp [hend]

/-- A change of one bit in the words changes that position and no other. -/
theorem stored_modify (b : Bitmap) {position : Nat} (value : Bool) (other : Nat)
    (h : position / wordBits < b.words.size) :
    ({ b with words := b.words.modify (position / wordBits) (Word.update · position value) }
      : Bitmap).stored other = if other = position then value else b.stored other := by
  have hother : other = position ↔
      position / wordBits = other / wordBits ∧ position % wordBits = other % wordBits := by
    constructor
    · rintro rfl
      exact ⟨rfl, rfl⟩
    · rintro ⟨hdiv, hmod⟩
      rw [← Nat.div_add_mod other wordBits, ← hdiv, ← hmod, Nat.div_add_mod]
  simp only [stored, Array.getD_eq_getD_getElem?, Array.getElem?_modify]
  by_cases hdiv : position / wordBits = other / wordBits
  · rw [if_pos hdiv, ← hdiv, Array.getElem?_eq_getElem h]
    simp [Word.test_update, hother, hdiv]
  · rw [if_neg hdiv, if_neg fun heq => hdiv (hother.1 heq).1]

/-- What a word operation that keeps zero does to two bitmaps, bit by bit. -/
theorem stored_zipWith (op : UInt64 → UInt64 → UInt64) (bit : Bool → Bool → Bool)
    (hop : ∀ x y position, Word.test (op x y) position
      = bit (Word.test x position) (Word.test y position))
    (hbit : bit false false = false) {a b : Bitmap} (hsize : a.words.size = b.words.size)
    (position : Nat) :
    ({ a with words := Array.zipWith op a.words b.words } : Bitmap).stored position
      = bit (a.stored position) (b.stored position) := by
  by_cases hword : position / wordBits < a.words.size
  · have hword' : position / wordBits < b.words.size := hsize ▸ hword
    simp only [stored, Array.getD_eq_getD_getElem?, Array.getElem?_zipWith,
      Array.getElem?_eq_getElem hword, Array.getElem?_eq_getElem hword']
    exact hop _ _ position
  · rw [stored_eq_false (Nat.le_of_not_lt hword),
      stored_eq_false (b := b) (hsize ▸ Nat.le_of_not_lt hword), hbit]
    refine stored_eq_false ?_
    simpa [← hsize] using hword

/-! ## The normal form -/

theorem wellFormed_iff {b : Bitmap} :
    b.WellFormed ↔
      b.words.size = wordsFor b.len ∧
        ∀ position, b.len ≤ position → b.stored position = false :=
  Iff.rfl

theorem WellFormed.get_eq {b : Bitmap} (h : b.WellFormed) (position : Nat) :
    b.get position = b.stored position := by
  rw [get_eq_stored]
  by_cases hlt : position < b.len
  · simp [hlt]
  · rw [(wellFormed_iff.1 h).2 position (Nat.le_of_not_lt hlt), Bool.and_false]

theorem wellFormed_zeros (len : Nat) : (zeros len).WellFormed :=
  ⟨by simp [zeros], fun position _ => stored_zeros len position⟩

theorem wellFormed_ofFn (len : Nat) (bits : Nat → Bool) : (ofFn len bits).WellFormed := by
  refine ⟨by simp [ofFn], fun position h => ?_⟩
  have hlt : ¬ position < len := Nat.not_lt.2 h
  exact (stored_ofFn len bits position).trans (by simp [hlt])

@[simp] theorem get_zeros (len position : Nat) : (zeros len).get position = false := by
  rw [(wellFormed_zeros len).get_eq, stored_zeros]

@[simp] theorem get_ofFn (len : Nat) (bits : Nat → Bool) (position : Nat) :
    (ofFn len bits).get position = (decide (position < len) && bits position) := by
  rw [(wellFormed_ofFn len bits).get_eq, stored_ofFn]

/-- Well-formed bitmaps of one length with the same bits are equal. -/
theorem WellFormed.ext {a b : Bitmap} (ha : a.WellFormed) (hb : b.WellFormed)
    (hlen : a.len = b.len) (hget : ∀ position, a.get position = b.get position) : a = b := by
  obtain ⟨lenA, wordsA⟩ := a
  obtain ⟨lenB, wordsB⟩ := b
  obtain rfl : lenA = lenB := hlen
  have hsize : wordsA.size = wordsB.size := ha.1.trans hb.1.symm
  have hwords : wordsA = wordsB := by
    apply Array.ext hsize
    intro i hiA hiB
    apply Word.ext
    intro bit hbit
    -- Bit `bit` of word `i` is the bit of the bitmap at `i * wordBits + bit`.
    have hdiv : (i * wordBits + bit) / wordBits = i := by
      rw [Nat.mul_comm, Nat.mul_add_div (by decide), Nat.div_eq_of_lt hbit, Nat.add_zero]
    have hmod : (i * wordBits + bit) % wordBits = bit := by
      rw [Nat.mul_comm, Nat.mul_add_mod, Nat.mod_eq_of_lt hbit]
    have hstored := hget (i * wordBits + bit)
    rw [ha.get_eq, hb.get_eq, stored, stored, hdiv] at hstored
    rw [← Word.test_mod, ← Word.test_mod _ (i * wordBits + bit), hmod] at hstored
    simpa [hiA, hiB] using hstored
  rw [hwords]

/-- A well-formed bitmap is given by its length and its bits. -/
theorem WellFormed.eq_ofFn {b : Bitmap} (h : b.WellFormed) : b = ofFn b.len b.get := by
  refine h.ext (wellFormed_ofFn _ _) rfl fun position => ?_
  rw [get_ofFn]
  by_cases hlt : position < b.len
  · simp [hlt]
  · simp [hlt, get_eq_stored]

/-- Only the bits below the length count. -/
theorem ofFn_congr {len : Nat} {f g : Nat → Bool}
    (h : ∀ position, position < len → f position = g position) : ofFn len f = ofFn len g := by
  refine (wellFormed_ofFn len f).ext (wellFormed_ofFn len g) rfl fun position => ?_
  by_cases hlt : position < len
  · simp [h position hlt]
  · simp [hlt]

theorem zeros_eq_ofFn (len : Nat) : zeros len = ofFn len fun _ => false :=
  (wellFormed_zeros len).ext (wellFormed_ofFn _ _) rfl fun position => by simp

/-! ## Operations in the normal form -/

/-- A bit below the length can be changed.  The result is well formed again. -/
theorem WellFormed.set_of_lt {b : Bitmap} (h : b.WellFormed) {position : Nat} (value : Bool)
    (hlt : position < b.len) :
    ∃ b', b.set position value = .ok b' ∧ b'.WellFormed ∧ b'.len = b.len ∧
      ∀ other, b'.get other = if other = position then value else b.get other := by
  have hword : position / wordBits < b.words.size := h.1 ▸ div_lt_wordsFor hlt
  refine ⟨_, if_pos hlt, ⟨?_, ?_⟩, rfl, ?_⟩
  · simpa using h.1
  · intro other hother
    have hle : b.len ≤ other := hother
    refine (stored_modify b value other hword).trans ?_
    rw [if_neg (by omega)]
    exact h.2 other hle
  · intro other
    rw [get_eq_stored, stored_modify b value other hword, get_eq_stored]
    by_cases heq : other = position
    · simp [heq, hlt]
    · simp [heq]

/-- A bit past the end cannot be changed. -/
theorem set_of_le {b : Bitmap} {position : Nat} (value : Bool) (hle : b.len ≤ position) :
    b.set position value = .error (.outOfRange position b.len) :=
  if_neg (Nat.not_lt.2 hle)

/-- A bit below the length can be set.  The result is well formed again. -/
theorem WellFormed.set_true {b : Bitmap} (h : b.WellFormed) {position : Nat}
    (hlt : position < b.len) :
    ∃ b', b.set position true = .ok b' ∧ b'.WellFormed ∧ b'.len = b.len ∧
      ∀ other, b'.get other = (decide (other = position) || b.get other) := by
  obtain ⟨b', hset, hwf, hlen, hget⟩ := h.set_of_lt true hlt
  refine ⟨b', hset, hwf, hlen, fun other => ?_⟩
  rw [hget]
  by_cases heq : other = position <;> simp [heq]

private theorem zipWith_ofFn (op : UInt64 → UInt64 → UInt64) (bit : Bool → Bool → Bool)
    (hop : ∀ x y position, Word.test (op x y) position
      = bit (Word.test x position) (Word.test y position))
    (hbit : bit false false = false) (len : Nat) (f g : Nat → Bool) :
    ({ ofFn len f with words := Array.zipWith op (ofFn len f).words (ofFn len g).words }
      : Bitmap) = ofFn len fun position => bit (f position) (g position) := by
  have hsize : (ofFn len f).words.size = (ofFn len g).words.size := by
    rw [(wellFormed_ofFn len f).1, (wellFormed_ofFn len g).1, len_ofFn, len_ofFn]
  have hstored := stored_zipWith op bit hop hbit hsize
  have hwf : ({ ofFn len f with
      words := Array.zipWith op (ofFn len f).words (ofFn len g).words } : Bitmap).WellFormed := by
    refine ⟨by simp [ofFn], fun position h => (hstored position).trans ?_⟩
    have hlt : ¬ position < len := Nat.not_lt.2 h
    simp [stored_ofFn, hlt, hbit]
  refine hwf.ext (wellFormed_ofFn _ _) rfl fun position => ?_
  rw [hwf.get_eq, hstored, stored_ofFn, stored_ofFn, get_ofFn]
  by_cases hlt : position < len <;> simp [hlt, hbit]

private theorem checkLength_ofFn (len : Nat) (f g : Nat → Bool) :
    checkLength (ofFn len f) (ofFn len g) = .ok () :=
  if_pos rfl

/-- Bitmaps of one length have a union, which has this length too. -/
theorem union_ok {a b : Bitmap} (h : a.len = b.len) :
    ∃ joined, a.union b = .ok joined ∧ joined.len = a.len := by
  rw [union, checkLength, if_pos h]
  exact ⟨_, rfl, rfl⟩

/-- The union of two answers has the bits of both. -/
theorem union_ofFn (len : Nat) (f g : Nat → Bool) :
    (ofFn len f).union (ofFn len g)
      = .ok (ofFn len fun position => f position || g position) := by
  rw [union, checkLength_ofFn]
  exact congrArg Except.ok (zipWith_ofFn _ (· || ·) Word.test_or rfl len f g)

/-- The difference of two answers has the bits of the first that are not in
the second. -/
theorem difference_ofFn (len : Nat) (f g : Nat → Bool) :
    (ofFn len f).difference (ofFn len g)
      = .ok (ofFn len fun position => f position && !g position) := by
  rw [difference, checkLength_ofFn]
  refine congrArg Except.ok (zipWith_ofFn _ (fun x y => x && !y) ?_ rfl len f g)
  intro x y position
  rw [Word.test_and, Word.test_not]

/-- Well-formed bitmaps of one length have a union and a difference, position by
position. -/
theorem WellFormed.combine {a b : Bitmap} (ha : a.WellFormed) (hb : b.WellFormed)
    (hlen : a.len = b.len) :
    a.union b = .ok (ofFn a.len fun position => a.get position || b.get position) ∧
      a.difference b = .ok (ofFn a.len fun position => a.get position && !b.get position) := by
  have hunion := union_ofFn a.len a.get b.get
  have hdifference := difference_ofFn a.len a.get b.get
  have hb' := hb.eq_ofFn
  rw [← hlen] at hb'
  rw [← ha.eq_ofFn, ← hb'] at hunion hdifference
  exact ⟨hunion, hdifference⟩

/-- Bitmaps of different lengths have neither. -/
theorem combine_of_ne {a b : Bitmap} (hlen : a.len ≠ b.len) :
    a.union b = .error (.lengthMismatch a.len b.len) ∧
      a.difference b = .error (.lengthMismatch a.len b.len) := by
  rw [union, difference, checkLength, if_neg hlen]
  exact ⟨rfl, rfl⟩

/-- A bitmap without set bits counts none. -/
theorem count_zeros (len : Nat) : (zeros len).count = 0 := by
  have hcount : Word.count 0 = 0 := rfl
  have hfold : ∀ n : Nat, (List.replicate n (0 : UInt64)).foldl
      (fun total word => total + Word.count word) 0 = 0 := by
    intro n
    induction n with
    | zero => rfl
    | succ n ih => rw [List.replicate_succ, List.foldl_cons, hcount, Nat.add_zero, ih]
  rw [count, zeros, ← Array.foldl_toList, Array.toList_replicate, hfold]

end Bitmap

end StripePruning
