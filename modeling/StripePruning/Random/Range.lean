import StripePruning.Random.Source

/-!
# Ranges, coins and shuffles

A number below `n` is the upper half of the product of a random word and `n`.
The lower half decides whether the word is accepted, so that all numbers are
equally likely.
-/

namespace StripePruning

/-- The greatest lower half that is accepted for a range of `n` numbers out of
`2 ^ bits`: one less than `n` shifted up as far as it goes. -/
def acceptedBelow (bits n : Nat) : Nat :=
  n * Nat.pow 2 (bits - 1 - n.log2) - 1

/-- The number below `n` that a random word of `bits` bits stands for, if the
word is accepted. -/
def acceptWord? (bits n word : Nat) : Option Nat :=
  let product := word * n
  if product % Nat.pow 2 bits ≤ acceptedBelow bits n then some (product / Nat.pow 2 bits) else none

namespace Draw

variable {g : Type} [RandomSource g] {α : Type}

/-- A number below `n`, from words of 64 bits. -/
def below (n : Nat) : Draw g Nat :=
  firstOf (do return acceptWord? 64 n (← wide).toNat) drawLimit

/-- A number below `n`, from words of 32 bits where these are wide enough. -/
def indexBelow (n : Nat) : Draw g Nat :=
  if n < Nat.pow 2 32 then
    firstOf (do return acceptWord? 32 n (← word).toNat) drawLimit
  else
    below n

/-- One of the values of an array that is not empty. -/
def oneOf [Inhabited α] (values : Array α) : Draw g α := do
  let index ← below values.size
  return values.getD index default

/-- Exchanges every value from the last down to the second with one at a drawn
index not above it.  `count` is one more than the index of the next value. -/
def shuffleDown : Nat → Array α → Draw g (Array α)
  | 0, values => pure values
  | 1, values => pure values
  | count + 2, values => do
    let index ← indexBelow (count + 2)
    shuffleDown (count + 1) (values.swapIfInBounds (count + 1) index)

/-- A random arrangement of an array. -/
def shuffle (values : Array α) : Draw g (Array α) :=
  shuffleDown values.size values

end Draw

/-- A coin: it shows heads always, or when a word of 64 bits lies below a
threshold. -/
inductive Coin where
  | always
  | below (threshold : UInt64)

namespace Coin

/-- The coin that shows heads with the given probability: never for NaN and
from zero down, always from one up. -/
def ofProbability (p : Float) : Coin :=
  if p.isNaN then .below 0
  else if p ≤ 0.0 then .below 0
  else if 1.0 ≤ p then .always
  else .below (p * 18446744073709551616.0).toUInt64

/-- Tosses a coin.  One that always shows heads takes nothing from the
source. -/
def toss {g : Type} [RandomSource g] : Coin → Draw g Bool
  | .always => pure true
  | .below threshold => do return (← Draw.wide) < threshold

end Coin

end StripePruning
