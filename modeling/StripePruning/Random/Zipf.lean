import StripePruning.Random.Source

/-!
# Ranks with inverse square weights

Rank `k` of `n` is drawn with a probability proportional to `1 / k ^ 2`, by
rejection from a continuous curve above these weights.
-/

namespace StripePruning

namespace Zipf

/-- The area below the curve for `n` ranks. -/
def area (n : Nat) : Float :=
  (1.0 / n.toFloat - 2.0) * (-1.0)

/-- The point of the curve with the share `p` of the area `area` below it. -/
def pointAt (area p : Float) : Float :=
  let share := p * area
  if share ≤ 1.0 then share else 1.0 / (share * (-1.0) + 2.0)

/-- The height of a rank's weight relative to the curve at a point. -/
def acceptance (point rank : Float) : Float :=
  let ratio := 1.0 / (rank * rank)
  if point > 1.0 then ratio * (point * point) else ratio

variable {g : Type} [RandomSource g]

/-- One attempt at a rank. -/
def attempt (area : Float) : Draw g (Option Float) := do
  let point := pointAt area (← Draw.unitInterval)
  let rank := (point + 1.0).floor
  let y ← Draw.unitInterval
  return if y < acceptance point rank then some rank else none

/-- A rank among `n`, as the generator gives it. -/
def rank (n : Nat) : Draw g Float :=
  Draw.firstOf (attempt (area n)) drawLimit

end Zipf

end StripePruning
