import StripePruning.Proofs.Index.Soundness
import StripePruning.Proofs.Steps
import StripePruning.Workload.Answer

/-!
# Queries are always answered

The answer to a query is put together value by value, from the least to the greatest
value that the query asks for.

* `Walk` are the values that are met on the way.  A walk ends at the greatest value
  before it takes another step, so it also ends where that value is the greatest
  64-bit integer.  `exists_walk` says that there is a walk, and `Walk.mem_iff` that
  it meets every value between the bounds and no other.
* `Walk.unionUpTo_eq`: the loop goes along a walk, so its steps never leave the 64-bit
  integers.
* `qualifyingStripes_ok`: all answers for single values have the length that was asked
  for, so their union never fails, whatever the index, the query and the number of
  stripes.
-/

namespace StripePruning

namespace Query

/-! ## The walk over the values -/

/-- The values on the way from one value up to `last`.  Each step goes to the next
integer, so none of them leaves the 64-bit integers, and none is taken from
`last`. -/
inductive Walk (last : Int64) : Int64 → List Int64 → Prop where
  | stop : Walk last last [last]
  | step {value : Int64} {rest : List Int64} (hne : value ≠ last)
      (hnext : (value + 1).toInt = value.toInt + 1) (hrest : Walk last (value + 1) rest) :
      Walk last value (value :: rest)

theorem next?_eq_some {value : Int64} (h : (value + 1).toInt = value.toInt + 1) :
    next? value = some (value + 1) := by
  have hupper := (value + 1).toInt_lt
  have hlt : value < Int64.maxValue := by
    rw [Int64.lt_iff_toInt_lt, Int64.toInt_maxValue]
    omega
  rw [next?, if_pos hlt]

/-- There is a walk to every value that lies `count` steps above. -/
theorem exists_walk {last : Int64} (count : Nat) {value : Int64}
    (hcount : value.toInt + count = last.toInt) : ∃ values, Walk last value values := by
  induction count generalizing value with
  | zero =>
    obtain rfl : value = last := Int64.toInt_inj.1 (by omega)
    exact ⟨[value], .stop⟩
  | succ count ih =>
    have hlt : value.toInt < last.toInt := by omega
    have hnext := toInt_add_one hlt
    have hrestCount : (value + 1).toInt + count = last.toInt := by omega
    obtain ⟨rest, hrest⟩ := ih hrestCount
    refine ⟨value :: rest, .step ?_ hnext hrest⟩
    intro hsame
    rw [hsame] at hlt
    omega

namespace Walk

variable {first last : Int64} {values : List Int64}

theorem le (h : Walk last first values) : first ≤ last := by
  induction h with
  | stop => exact Int64.le_refl last
  | step _ hnext _ ih =>
    rw [Int64.le_iff_toInt_le] at ih ⊢
    omega

/-- A walk meets every value between its ends and no other. -/
theorem mem_iff (h : Walk last first values) {value : Int64} :
    value ∈ values ↔ first ≤ value ∧ value ≤ last := by
  induction h with
  | stop =>
    rw [List.mem_singleton]
    constructor
    · rintro rfl
      exact ⟨Int64.le_refl value, Int64.le_refl value⟩
    · rintro ⟨hlower, hupper⟩
      exact Int64.le_antisymm hupper hlower
  | @step start rest hne hnext hrest ih =>
    have hlast := Int64.le_iff_toInt_le.1 hrest.le
    rw [List.mem_cons, ih, ← Int64.toInt_inj]
    simp only [Int64.le_iff_toInt_le]
    omega

end Walk

/-! ## The answer along a walk -/

/-- The stripes found so far with those that are named for one more value. -/
def unite (index : Index) (n : Nat) (found : Bitmap) (value : Int64) : Except Error Bitmap :=
  found.union (StripeIndex.qualifyingStripes index value n)

/-- The loop goes along a walk and ends where the walk does. -/
theorem Walk.unionUpTo_eq {first last : Int64} {values : List Int64}
    (h : Walk last first values) (index : Index) (n : Nat) (found : Bitmap) :
    unionUpTo index n last first found = values.foldlM (unite index n) found := by
  induction h generalizing found with
  | stop =>
    rw [unionUpTo, List.foldlM_cons]
    exact bind_congr fun found => if_pos rfl
  | @step value rest hne hnext hrest ih =>
    have hroom := next?_eq_some hnext
    rw [unionUpTo, List.foldlM_cons]
    refine bind_congr fun found => ?_
    rw [if_neg hne]
    split
    · rename_i next hsome
      obtain rfl := Option.some.inj (hroom.symm.trans hsome)
      exact ih found
    · rename_i hnone
      rw [hroom] at hnone
      cases hnone

/-- A query with bounds in order is answered along the walk from one to the other. -/
theorem exists_walk_qualifyingStripes (index : Index) (query : Query) (n : Nat)
    (hbounds : query.bounds.1 ≤ query.bounds.2) :
    ∃ values, Walk query.bounds.2 query.bounds.1 values ∧
      query.qualifyingStripes index n = values.foldlM (unite index n) (Bitmap.zeros n) := by
  have hle := Int64.le_iff_toInt_le.1 hbounds
  have hcount : query.bounds.1.toInt + (query.bounds.2.toInt - query.bounds.1.toInt).toNat
      = query.bounds.2.toInt := by omega
  obtain ⟨values, hwalk⟩ := exists_walk _ hcount
  refine ⟨values, hwalk, ?_⟩
  calc
    query.qualifyingStripes index n
    _ = unionUpTo index n query.bounds.2 query.bounds.1 (Bitmap.zeros n) :=
      if_neg (Int64.not_lt.2 hbounds)
    _ = values.foldlM (unite index n) (Bitmap.zeros n) := hwalk.unionUpTo_eq index n _

/-- A query with its bounds the wrong way round is answered with no stripe. -/
theorem qualifyingStripes_of_lt (index : Index) (query : Query) (n : Nat)
    (hbounds : query.bounds.2 < query.bounds.1) :
    query.qualifyingStripes index n = .ok (Bitmap.zeros n) :=
  if_pos hbounds

/-- The answer to a query never fails, and it has as many bits as there are stripes. -/
theorem qualifyingStripes_ok (index : Index) (query : Query) (n : Nat) :
    ∃ answer, query.qualifyingStripes index n = .ok answer ∧ answer.len = n := by
  rcases Int64.lt_or_le query.bounds.2 query.bounds.1 with hbounds | hbounds
  · exact ⟨Bitmap.zeros n, qualifyingStripes_of_lt index query n hbounds, rfl⟩
  · obtain ⟨values, -, hrun⟩ := exists_walk_qualifyingStripes index query n hbounds
    rw [hrun]
    refine foldlM_ok (fun value _ found hfound => ?_) rfl
    obtain ⟨joined, hjoined, hlen⟩ :=
      Bitmap.union_ok (hfound.trans (index.len_qualifyingStripes value n).symm)
    exact ⟨joined, hjoined, hlen.trans hfound⟩

end Query

end StripePruning
