import StripePruning.Index.Basic
import StripePruning.Workload.Line

/-!
# Answering a query

The stripes that may hold a value between the bounds of a query: the union of
the answers of an index for every such value.
-/

namespace StripePruning

/-- The next 64-bit integer; there is none after the greatest. -/
def next? (value : Int64) : Option Int64 :=
  if value < Int64.maxValue then some (value + 1) else none

/-- Below another 64-bit integer there is room for a step. -/
theorem toInt_add_one {value last : Int64} (h : value.toInt < last.toInt) :
    (value + 1).toInt = value.toInt + 1 := by
  have hlower := value.le_toInt
  have hupper := last.toInt_lt
  rw [Int64.toInt_add, Int64.toInt_one]
  exact Int.bmod_eq_of_le (by omega) (by omega)

theorem lt_of_next?_eq_some {value next : Int64} (h : next? value = some next) :
    value.toInt < next.toInt ∧ next.toInt ≤ Int64.maxValue.toInt := by
  unfold next? at h
  split at h
  · rename_i hlt
    rw [Int64.lt_iff_toInt_lt] at hlt
    have hnext := toInt_add_one hlt
    rw [← Option.some.inj h]
    omega
  · cases h

namespace Query

variable {ι : Type} [StripeIndex ι]

/-- The union of `found` and the answers for the values from `value` to `last`.
The loop ends at `last`, before it takes another step. -/
def unionUpTo (index : ι) (n : Nat) (last value : Int64) (found : Bitmap) :
    Except Error Bitmap := do
  let found ← found.union (StripeIndex.qualifyingStripes index value n)
  if value = last then
    return found
  else
    match _ : next? value with
    | some next => unionUpTo index n last next found
    | none => .error .overflow
termination_by (Int64.maxValue.toInt - value.toInt).toNat
decreasing_by
  rename_i hnext
  have hlt := lt_of_next?_eq_some hnext
  omega

/-- The stripes among the first `n` that may hold a value of a query, none if its
bounds are the wrong way round. -/
def qualifyingStripes (index : ι) (query : Query) (n : Nat) : Except Error Bitmap :=
  let (first, last) := query.bounds
  if last < first then .ok (Bitmap.zeros n)
  else unionUpTo index n last first (Bitmap.zeros n)

end Query

end StripePruning
