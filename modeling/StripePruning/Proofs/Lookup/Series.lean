import Mathlib.Data.Nat.Find
import StripePruning.Lookup.Series

/-!
# How many lookups a series counts

A series repeats its batch until its least time is over, so what it counts depends on its stopwatch.

* `Stopwatch.IsLastPass` is the pass behind which the stopwatch shows the least time at first;
  `Stopwatch.exists_isLastPass` says that there is one.
* `LookupMeasurement.repeatPasses_eq` says what the loop does from any pass on, and
  `LookupMeasurement.lookups_measure` that a series counts its batch once for each pass.
* `LookupMeasurement.untimed` and `LookupMeasurement.uncounted` leave out of a measurement what
  depends on the stopwatch; without a least time that is the time alone.
-/

namespace StripePruning

namespace Stopwatch

/-- The pass, counted from zero, behind which a stopwatch shows a least time for the first time. -/
structure IsLastPass (w : Stopwatch) (least : Duration) (last : Nat) : Prop where
  le_nanos : least.totalNanos ≤ w.nanos last
  nanos_lt : ∀ i, i < last → w.nanos i < least.totalNanos

theorem exists_isLastPass (w : Stopwatch) (least : Duration) : ∃ last, w.IsLastPass least last := by
  have hreached : ∃ i, least.totalNanos ≤ w.nanos i := ⟨_, w.le_reach least.totalNanos⟩
  exact ⟨Nat.find hreached, Nat.find_spec hreached,
    fun i hi => Nat.lt_of_not_le (Nat.find_min hreached hi)⟩

/-- Without a least time the first pass is the last one. -/
theorem isLastPass_zero (w : Stopwatch) {least : Duration} (h : least.totalNanos = 0) :
    w.IsLastPass least 0 where
  le_nanos := by omega
  nanos_lt i hi := absurd hi (Nat.not_lt_zero i)

end Stopwatch

namespace LookupMeasurement

variable {w : Stopwatch} {least : Duration} {name : String} {values : Array Int64} {last : Nat}

/-- The loop counts the batch once for each pass that is left. -/
theorem repeatPasses_eq (hvalues : values.isEmpty = false) (hlast : w.IsLastPass least last)
    {pass : Nat} (hpass : pass ≤ last) (lookups : Nat) :
    repeatPasses w least name values pass lookups
      = { name
          lookups := lookups + (last + 1 - pass) * values.size
          elapsed := w.reading (last + 1) } := by
  induction hleft : last - pass generalizing pass lookups with
  | zero =>
    obtain rfl : pass = last := by omega
    rw [repeatPasses, hvalues, if_neg Bool.false_ne_true, if_pos hlast.le_nanos,
      Nat.add_sub_cancel_left, Nat.one_mul]
  | succ left ih =>
    have hshown : ¬ least.totalNanos ≤ w.nanos pass :=
      Nat.not_le_of_lt (hlast.nanos_lt pass (by omega))
    have hpasses : last + 1 - pass = last + 1 - (pass + 1) + 1 := by omega
    rw [repeatPasses, hvalues, if_neg Bool.false_ne_true, if_neg hshown,
      ih (by omega) _ (by omega), hpasses, Nat.add_one_mul]
    congr 1
    omega

theorem name_measure (w : Stopwatch) (least : Duration) (name : String) (values : Array Int64) :
    (measure w least name values).name = name := by
  obtain ⟨last, hlast⟩ := w.exists_isLastPass least
  cases hvalues : values.isEmpty with
  | true => rw [measure, repeatPasses, hvalues, if_pos rfl]
  | false => rw [measure, repeatPasses_eq hvalues hlast (Nat.zero_le last)]

/-- A series counts its batch once for each pass, up to the last one. -/
theorem lookups_measure (hlast : w.IsLastPass least last) (name : String) (values : Array Int64) :
    (measure w least name values).lookups = (last + 1) * values.size := by
  cases hvalues : values.isEmpty with
  | true =>
    have hsize : values.size = 0 := Array.isEmpty_iff_size_eq_zero.1 hvalues
    rw [measure, repeatPasses, hvalues, if_pos rfl, hsize, Nat.mul_zero]
  | false =>
    rw [measure, repeatPasses_eq hvalues hlast (Nat.zero_le last), Nat.zero_add, Nat.sub_zero]

/-! ## What does not depend on the stopwatch -/

/-- A measurement without its time. -/
def untimed (m : LookupMeasurement) : LookupMeasurement :=
  { m with elapsed := {} }

/-- A measurement without its time and without the number of lookups. -/
def uncounted (m : LookupMeasurement) : LookupMeasurement :=
  { m with lookups := 0, elapsed := {} }

/-- The number of lookups and the time are all that depends on the stopwatch. -/
theorem uncounted_measure (w : Stopwatch) (least : Duration) (name : String)
    (values : Array Int64) : (measure w least name values).uncounted = { name, lookups := 0 } := by
  rw [uncounted, name_measure]

/-- Without a least time only the time depends on the stopwatch. -/
theorem untimed_measure (w : Stopwatch) (h : least.totalNanos = 0) (name : String)
    (values : Array Int64) :
    (measure w least name values).untimed = { name, lookups := values.size } := by
  rw [untimed, name_measure, lookups_measure (w.isLastPass_zero h), Nat.zero_add, Nat.one_mul]

end LookupMeasurement

end StripePruning
