/-!
# Random sources and drawings

A `RandomSource` yields one 32-bit word after the other.  A `Draw` turns such
words into a value; it works for every source, so what holds of a drawing
holds of every outcome.  A drawing that waits for an acceptable word is given
a number of attempts and has no value when they run out.
-/

namespace StripePruning

/-- A state that yields random words. -/
class RandomSource (g : Type) where
  /-- The next word and the state behind it. -/
  nextWord : g → UInt32 × g

/-- A value drawn from a source of type `g`, if the drawing ends. -/
abbrev Draw (g : Type) (α : Type) := StateT g Option α

/-- How often a drawing asks a source before it gives up. -/
def drawLimit : Nat := Nat.pow 2 62

namespace Draw

variable {g : Type} [RandomSource g] {α : Type}

/-- One word of 32 bits. -/
def word : Draw g UInt32 :=
  fun source => some (RandomSource.nextWord source)

/-- One word of 64 bits, its lower half first. -/
def wide : Draw g UInt64 := do
  let low ← word
  let high ← word
  return high.toUInt64 <<< 32 ||| low.toUInt64

/-- Any 64-bit integer. -/
def int64 : Draw g Int64 := do
  return (← wide).toInt64

/-- The value of the first attempt that has one. -/
def firstOf (attempt : Draw g (Option α)) : Nat → Draw g α
  | 0 => fun _ => none
  | limit + 1 => do
    match ← attempt with
    | some value => pure value
    | none => firstOf attempt limit

/-- `count` drawings in a row, added to the values already `drawn`. -/
def repeatInto (one : Draw g α) : Nat → Array α → Draw g (Array α)
  | 0, drawn => pure drawn
  | count + 1, drawn => do
    let value ← one
    repeatInto one count (drawn.push value)

/-- The values of `count` drawings in a row. -/
def repeated (count : Nat) (one : Draw g α) : Draw g (Array α) :=
  repeatInto one count #[]

/-- A double of at least zero and below one, with 53 random bits. -/
def unitInterval : Draw g Float := do
  return (← wide >>= fun w => pure (w >>> 11)).toFloat * Float.ofBits 0x3CA0000000000000

end Draw

end StripePruning
