import StripePruning.Random.Range

/-!
# Checked drawings

Some steps of a drawing ask for what may not be there: a number of an empty range, a
value past the end of an array, a number between bounds of which the lower one is
greater, or a coin with a probability that is none.  A `CheckedDraw` checks each such
step before it takes it, and ends with a `DrawFault` at the first that is not valid.
-/

namespace StripePruning

/-- What makes a step of a drawing invalid. -/
inductive DrawFault where
  /-- A range without numbers. -/
  | emptyRange
  /-- A place before the first value of an array. -/
  | noPlace
  /-- A place past the end of an array of `size` values. -/
  | pastTheEnd (place size : Nat)
  /-- A lower bound above the upper one. -/
  | crossedBounds (low high : Nat)
  /-- A probability that does not lie between zero and one. -/
  | noProbability (p : Float)

/-- A value drawn from a source of type `g`, or the first invalid step, if the drawing
ends. -/
abbrev CheckedDraw (g : Type) (α : Type) := ExceptT DrawFault (StateT g Option) α

namespace CheckedDraw

variable {g : Type} {α : Type}

/-- A drawing without steps to check. -/
def ofDraw (draw : Draw g α) : CheckedDraw g α :=
  ExceptT.lift draw

/-- Goes on only if a condition holds. -/
def demand (condition : Prop) [Decidable condition] (fault : DrawFault) : CheckedDraw g Unit :=
  if condition then pure () else throw fault

variable [RandomSource g]

/-- A number below `n`, which must not be zero. -/
def below (n : Nat) : CheckedDraw g Nat := do
  demand (0 < n) .emptyRange
  ofDraw (Draw.below n)

@[inherit_doc below]
def indexBelow (n : Nat) : CheckedDraw g Nat := do
  demand (0 < n) .emptyRange
  ofDraw (Draw.indexBelow n)

/-- The value at a place that the array must have. -/
def valueAt (values : Array α) (place : Nat) : CheckedDraw g α :=
  match values[place]? with
  | some value => pure value
  | none => throw (.pastTheEnd place values.size)

/-- One of the values of an array. -/
def oneOf (values : Array α) : CheckedDraw g α := do
  valueAt values (← below values.size)

/-- A number kept between two bounds, the lower one of which must not be greater. -/
def clamp (low high n : Nat) : CheckedDraw g Nat := do
  demand (low ≤ high) (.crossedBounds low high)
  return max low (min high n)

/-- Tosses a coin that shows heads with a probability. -/
def toss (p : Float) : CheckedDraw g Bool := do
  demand (0.0 ≤ p ∧ p ≤ 1.0) (.noProbability p)
  ofDraw (Coin.ofProbability p).toss

/-- `count` drawings in a row, added to the values already `drawn`. -/
def repeatInto (one : CheckedDraw g α) : Nat → Array α → CheckedDraw g (Array α)
  | 0, drawn => pure drawn
  | count + 1, drawn => do
    let value ← one
    repeatInto one count (drawn.push value)

/-- The values of `count` drawings in a row. -/
def repeated (count : Nat) (one : CheckedDraw g α) : CheckedDraw g (Array α) :=
  repeatInto one count #[]

/-- Exchanges the values at two places that the array must have. -/
def swap (values : Array α) (i j : Nat) : CheckedDraw g (Array α) := do
  demand (i < values.size) (.pastTheEnd i values.size)
  demand (j < values.size) (.pastTheEnd j values.size)
  return values.swapIfInBounds i j

/-- Exchanges every value from the last down to the second with one at a drawn
index not above it.  `count` is one more than the index of the next value. -/
def shuffleDown : Nat → Array α → CheckedDraw g (Array α)
  | 0, values => pure values
  | 1, values => pure values
  | count + 2, values => do
    let index ← indexBelow (count + 2)
    shuffleDown (count + 1) (← swap values (count + 1) index)

/-- A random arrangement of an array. -/
def shuffle (values : Array α) : CheckedDraw g (Array α) :=
  shuffleDown values.size values

end CheckedDraw

end StripePruning
