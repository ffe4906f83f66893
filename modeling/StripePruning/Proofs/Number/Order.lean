import StripePruning.Proofs.Number.Rates

/-!
# Comparing doubles

Two doubles that are numbers or infinities are always in an order, and a double that is
NaN is in none.

* `lt_iff` and `le_iff` read a comparison as the one of the parts of the doubles.
* `lt_or_le` holds without NaN, and `le_of_lt` always.
* `isNaN_eq_false_of_le` and `not_le_zero` are about doubles from one on.
-/

namespace StripePruning

namespace Double

open Float.Model Float.Model.UnpackedFloat

/-- Two doubles compare the other way round if they are exchanged. -/
theorem compare_swap (a b : UnpackedFloat) :
    b.compare a = (a.compare b).map Ordering.swap := by
  have hparts (m m' : Nat) (e e' : Int) : (compare e' e).then (compare m' m)
      = ((compare e e').then (compare m m')).swap := by
    rw [Ordering.swap_then, Int.compare_swap, Nat.compare_swap]
  -- Only finite doubles with the same sign have to be compared by their parts.
  rcases a with (_ | _) | _ | (_ | _) | ⟨_ | _, m, e, _⟩ <;>
    rcases b with (_ | _) | _ | (_ | _) | ⟨_ | _, m', e', _⟩ <;>
    first
    | rfl
    | exact congrArg some (hparts m m' e e')
    | exact congrArg (some ∘ Ordering.swap) (hparts m m' e e')

theorem compare_notANumber (a : UnpackedFloat) : a.compare .notANumber = none := by
  cases a <;> rfl

/-- Doubles other than NaN can be compared. -/
theorem exists_compare {a b : UnpackedFloat} (ha : a.isNaN = false) (hb : b.isNaN = false) :
    ∃ order, a.compare b = some order := by
  rcases a with (_ | _) | _ | (_ | _) | ⟨_ | _, m, e, _⟩ <;>
    rcases b with (_ | _) | _ | (_ | _) | ⟨_ | _, m', e', _⟩ <;>
    first
    | exact ⟨_, rfl⟩
    | exact Bool.noConfusion ha
    | exact Bool.noConfusion hb

variable {x y : Float}

theorem lt_iff : x < y ↔ x.toModel.unpack.compare y.toModel.unpack = some .lt := by
  have h : x < y ↔ x.toModel.unpack.lt y.toModel.unpack = true := decide_eq_true_iff
  rw [h, UnpackedFloat.lt, beq_iff_eq]

theorem le_iff :
    x ≤ y ↔ ∃ order, x.toModel.unpack.compare y.toModel.unpack = some order ∧
      order.isLE = true := by
  have h : x ≤ y ↔ x.toModel.unpack.le y.toModel.unpack = true := decide_eq_true_iff
  rw [h, UnpackedFloat.le]
  cases x.toModel.unpack.compare y.toModel.unpack <;> simp

theorem le_of_lt (h : x < y) : x ≤ y :=
  le_iff.2 ⟨.lt, lt_iff.1 h, rfl⟩

theorem lt_or_le (hx : x.isNaN = false) (hy : y.isNaN = false) : x < y ∨ y ≤ x := by
  obtain ⟨order, horder⟩ := exists_compare hx hy
  have hswap := compare_swap x.toModel.unpack y.toModel.unpack
  rw [horder] at hswap
  cases order with
  | lt => exact Or.inl (lt_iff.2 horder)
  | eq => exact Or.inr (le_iff.2 ⟨.eq, hswap, rfl⟩)
  | gt => exact Or.inr (le_iff.2 ⟨.lt, hswap, rfl⟩)

theorem isNaN_eq_false_of_le (h : x ≤ y) : y.isNaN = false := by
  obtain ⟨order, horder, -⟩ := le_iff.1 h
  show y.toModel.unpack.isNaN = false
  cases hy : y.toModel.unpack with
  | notANumber =>
    rw [hy, compare_notANumber] at horder
    cases horder
  | infinity => rfl
  | zero => rfl
  | finite => rfl

theorem isNaN_zero : (0.0 : Float).isNaN = false := by
  show (0.0 : Float).toModel.unpack.isNaN = false
  rw [unpack_zero]
  rfl

theorem isNaN_one : (1.0 : Float).isNaN = false := by
  show (1.0 : Float).toModel.unpack.isNaN = false
  rw [unpack_one]
  rfl

theorem zero_le_zero : (0.0 : Float) ≤ 0.0 := by decide +kernel

theorem zero_le_one : (0.0 : Float) ≤ 1.0 := by decide +kernel

theorem one_le_one : (1.0 : Float) ≤ 1.0 := by decide +kernel

/-- No double lies both at or above one and at or below zero. -/
theorem not_le_zero (h : 1.0 ≤ x) : ¬ x ≤ 0.0 := by
  intro hzero
  obtain ⟨order, horder, hle⟩ := le_iff.1 h
  obtain ⟨order', horder', hle'⟩ := le_iff.1 hzero
  rw [unpack_one, ofParts_of_pos (by decide)] at horder
  rw [unpack_zero] at horder'
  rcases hx : x.toModel.unpack with (_ | _) | _ | (_ | _) | ⟨_ | _, m, e, _⟩ <;>
    rw [hx] at horder horder' <;> cases horder <;> cases horder' <;>
    first
    | exact Bool.noConfusion hle
    | exact Bool.noConfusion hle'

end Double

end StripePruning
