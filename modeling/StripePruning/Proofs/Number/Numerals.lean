import Mathlib.Algebra.Ring.Int.Defs
import StripePruning.Number.Reading

/-!
# Numerals

A numeral is an optional sign and one or more ASCII digits.  `SignedDigits` is this grammar with
the integer that a numeral denotes, and the readers of integers are compared with it.

* `integerValue?_eq_some_iff` says that exactly the numerals are read as integers, with
  their values, and `readInt64?_eq_some_iff` that exactly those in range are read as 64-bit
  integers.
* `signedDigits_decimal` says that an integer in decimal, with any number of zeros before its
  digits, denotes the integer.
-/

namespace StripePruning

variable {text : List Char} {m n : Int}

/-- One or more ASCII digits and the natural that they denote. -/
structure Digits (text : List Char) (n : Nat) : Prop where
  ne_nil : text ≠ []
  isDigit : ∀ c ∈ text, c.isDigit
  value_eq : Nat.ofDigitChars 10 text 0 = n

/-- An optional sign and one or more ASCII digits, and the integer that they denote. -/
inductive SignedDigits : List Char → Int → Prop
  | bare {digits : List Char} {n : Nat} (h : Digits digits n) : SignedDigits digits n
  | plus {digits : List Char} {n : Nat} (h : Digits digits n) : SignedDigits ('+' :: digits) n
  | minus {digits : List Char} {n : Nat} (h : Digits digits n) : SignedDigits ('-' :: digits) (-n)

/-- The integers of 64 bits. -/
def FitsInt64 (n : Int) : Prop :=
  -2 ^ 63 ≤ n ∧ n ≤ 2 ^ 63 - 1

instance : Decidable (FitsInt64 n) :=
  inferInstanceAs (Decidable (-2 ^ 63 ≤ n ∧ n ≤ 2 ^ 63 - 1))

/-! ## Reading -/

theorem digitsValue?_eq_some_iff {n : Nat} : digitsValue? text = some n ↔ Digits text n := by
  have hvalue : text.foldl (fun value c => value * 10 + (c.toNat - '0'.toNat)) 0
      = Nat.ofDigitChars 10 text 0 := by
    simp only [Nat.ofDigitChars, Nat.mul_comm]
  unfold digitsValue?
  rw [hvalue]
  split
  · rename_i hform
    refine ⟨nofun, fun h => ?_⟩
    have hdigits := List.all_eq_true.mpr h.isDigit
    simp [h.ne_nil, hdigits] at hform
  · rename_i hform
    rw [Bool.or_eq_true, List.isEmpty_iff, not_or, Bool.not_eq_true', Bool.not_eq_false,
      List.all_eq_true] at hform
    rw [Option.some_inj]
    exact ⟨fun h => ⟨hform.1, hform.2, h⟩, Digits.value_eq⟩

/-- No digit is a sign. -/
theorem Digits.head_ne {c : Char} {digits : List Char} {n : Nat} (h : Digits (c :: digits) n) :
    c ≠ '+' ∧ c ≠ '-' := by
  have hdigit := h.isDigit c List.mem_cons_self
  constructor
  · intro hc
    rw [hc] at hdigit
    exact absurd hdigit (by decide)
  · intro hc
    rw [hc] at hdigit
    exact absurd hdigit (by decide)

theorem integerValue?_of_digits {n : Nat} (h : Digits text n) :
    integerValue? text = some (n : Int) := by
  have hvalue := digitsValue?_eq_some_iff.mpr h
  unfold integerValue?
  split
  · exact absurd rfl h.head_ne.2
  · exact absurd rfl h.head_ne.1
  · simp [hvalue]

theorem integerValue?_eq_some_iff : integerValue? text = some n ↔ SignedDigits text n := by
  constructor
  · intro h
    unfold integerValue? at h
    -- One case for each form of a numeral.
    split at h
    all_goals
      simp only [Option.bind_eq_bind, Option.pure_def, Option.map_bind, Option.bind_eq_some_iff,
        Option.map_eq_some_iff, Function.comp, Option.map_some, Option.some_inj] at h
      obtain ⟨value, hvalue, hn⟩ := h
      have hdigits := digitsValue?_eq_some_iff.mp hvalue
      subst hn
    · exact .minus hdigits
    · exact .plus hdigits
    · exact .bare hdigits
  · intro h
    cases h with
    | bare h => exact integerValue?_of_digits h
    | plus h => simp [integerValue?, digitsValue?_eq_some_iff.mpr h]
    | minus h => simp [integerValue?, digitsValue?_eq_some_iff.mpr h]

theorem SignedDigits.ne_nil (h : SignedDigits text n) : text ≠ [] := by
  cases h with
  | bare h => exact h.ne_nil
  | plus h => exact List.cons_ne_nil _ _
  | minus h => exact List.cons_ne_nil _ _

theorem SignedDigits.mem (h : SignedDigits text n) {c : Char} (hc : c ∈ text) :
    c.isDigit ∨ c = '+' ∨ c = '-' := by
  cases h with
  | bare h => exact Or.inl (h.isDigit c hc)
  | plus h =>
    cases List.mem_cons.mp hc with
    | inl hsign => exact Or.inr (Or.inl hsign)
    | inr hdigit => exact Or.inl (h.isDigit c hdigit)
  | minus h =>
    cases List.mem_cons.mp hc with
    | inl hsign => exact Or.inr (Or.inr hsign)
    | inr hdigit => exact Or.inl (h.isDigit c hdigit)

/-- A numeral denotes one integer. -/
theorem SignedDigits.unique (hm : SignedDigits text m) (hn : SignedDigits text n) : m = n :=
  Option.some_inj.mp ((integerValue?_eq_some_iff.mpr hm).symm.trans
    (integerValue?_eq_some_iff.mpr hn))

theorem fitsInt64_toInt (a : Int64) : FitsInt64 a.toInt :=
  ⟨a.le_toInt, Int.le_sub_one_of_lt a.toInt_lt⟩

/-- A numeral out of range is refused. -/
theorem readInt64?_eq_some_iff {a : Int64} :
    readInt64? text = some a ↔ SignedDigits text a.toInt := by
  unfold readInt64?
  rw [Int64.toInt_minValue, Int64.toInt_maxValue]
  constructor
  · intro h
    split at h
    · rename_i n hvalue
      split at h
      · rename_i hrange
        cases h
        rw [Int64.toInt_ofInt_of_le hrange.1 (by omega)]
        exact integerValue?_eq_some_iff.mp hvalue
      · cases h
    · cases h
  · intro h
    rw [integerValue?_eq_some_iff.mpr h]
    show (if FitsInt64 a.toInt then some (Int64.ofInt a.toInt) else none) = some a
    rw [if_pos (fitsInt64_toInt a), Int64.ofInt_toInt]

/-! ## Decimals -/

/-- An integer in decimal, with some zeros before its digits. -/
def decimal (zeros : Nat) (n : Int) : List Char :=
  (if n < 0 then ['-'] else []) ++ (List.replicate zeros '0' ++ Nat.toDigits 10 n.natAbs)

theorem decimal_zero (n : Int) : decimal 0 n = (toString n).toList := by
  rw [Int.toString_eq_repr, Int.repr_eq_if]
  unfold decimal
  by_cases hn : n < 0
  · have habs : (-n).toNat = n.natAbs := by omega
    rw [if_pos hn, if_neg (by omega), String.toList_append, Nat.toList_repr, habs]
    rfl
  · have habs : n.toNat = n.natAbs := by omega
    rw [if_neg hn, if_pos (by omega), Nat.toList_repr, habs]
    rfl

theorem digits_zeros_append (zeros n : Nat) :
    Digits (List.replicate zeros '0' ++ Nat.toDigits 10 n) n where
  ne_nil := by simp [Nat.toDigits_ne_nil]
  isDigit c hc := by
    rw [List.mem_append] at hc
    cases hc with
    | inl hzero =>
      rw [List.eq_of_mem_replicate hzero]
      decide
    | inr hdigit => exact Nat.isDigit_of_mem_toDigits (by decide) (by decide) hdigit
  value_eq := by
    rw [Nat.ofDigitChars_append, Nat.ofDigitChars_replicate_zero, Nat.mul_zero,
      Nat.ofDigitChars_ten_toDigits]

theorem signedDigits_decimal (zeros : Nat) (n : Int) : SignedDigits (decimal zeros n) n := by
  have hdigits := digits_zeros_append zeros n.natAbs
  unfold decimal
  by_cases hn : n < 0
  · rw [if_pos hn]
    have habs : n = -(n.natAbs : Int) := by omega
    have h := SignedDigits.minus hdigits
    rwa [← habs] at h
  · rw [if_neg hn]
    have habs : n = (n.natAbs : Int) := by omega
    have h := SignedDigits.bare hdigits
    rwa [← habs] at h

end StripePruning
