import StripePruning.Duration

/-!
# Stopwatches

How long a series of lookups takes is not for the program to say: it starts a
stopwatch and reads it.  A `Stopwatch` holds what all its readings show, so a
computation that is timed is a function of it.  A `Timer` holds a stopwatch for
every series of a run.
-/

namespace StripePruning

/-- A stopwatch: what it shows, in nanoseconds, each time it is read.  It does not
go back, and it shows any time in the end. -/
structure Stopwatch where
  nanos : Nat → Nat
  le_next : ∀ i, nanos i ≤ nanos (i + 1)
  /-- A reading by which a time has gone by. -/
  reach : Nat → Nat
  le_reach : ∀ time, time ≤ nanos (reach time)

namespace Stopwatch

/-- What a reading shows. -/
def reading (w : Stopwatch) (i : Nat) : Duration :=
  .ofParts 0 (w.nanos i)

/-- A stopwatch on which the same time goes by before each reading. -/
def ticking (step : Nat) (hstep : 0 < step := by decide) : Stopwatch where
  nanos i := (i + 1) * step
  le_next i := Nat.mul_le_mul_right step (Nat.le_succ (i + 1))
  reach time := time
  le_reach time := Nat.le_trans (Nat.le_succ time) (Nat.le_mul_of_pos_right (time + 1) hstep)

theorem nanos_le (w : Stopwatch) {i j : Nat} (h : i ≤ j) : w.nanos i ≤ w.nanos j := by
  induction h with
  | refl => exact Nat.le_refl (w.nanos i)
  | step _ ih => exact Nat.le_trans ih (w.le_next _)

/-- A time that a reading does not show yet is reached later. -/
theorem lt_reach (w : Stopwatch) {i time : Nat} (h : w.nanos i < time) : i < w.reach time := by
  have htime : w.nanos i < w.nanos (w.reach time) := Nat.lt_of_lt_of_le h (w.le_reach time)
  exact Nat.lt_of_not_le fun hle => Nat.not_lt_of_le (w.nanos_le hle) htime

end Stopwatch

/-- The stopwatches of a run, by the places of the loops that lead to a series. -/
structure Timer where
  watchAt : List Nat → Stopwatch

namespace Timer

/-- The stopwatch of the series itself. -/
def watch (t : Timer) : Stopwatch :=
  t.watchAt []

/-- The stopwatches of one turn of a loop. -/
def turn (t : Timer) (i : Nat) : Timer where
  watchAt places := t.watchAt (i :: places)

/-- The same kind of stopwatch everywhere. -/
def uniform (w : Stopwatch) : Timer where
  watchAt _ := w

end Timer

end StripePruning
