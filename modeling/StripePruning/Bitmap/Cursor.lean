import StripePruning.Bitmap.Basic

/-!
# The set positions of a bitmap

A `Cursor` walks the set bits of a bitmap in ascending order.  It holds the
index of a word and what is left of that word; a step takes the lowest bit
left, if need be of a later word.  A cursor is a value, so a copy walks on its
own.  `Bitmap.ones` lists
all set positions.
-/

namespace StripePruning

/-- A place in the walk over the set bits of `words`.  The bits below it in
`current` are already cleared. -/
structure Cursor where
  words : Array UInt64
  wordIndex : Nat
  current : UInt64

namespace Cursor

/-- One turn of the search for the next position: it ends with an answer, or it
goes on with the next word. -/
def turn (c : Cursor) : Option (Option Nat) × Cursor :=
  if c.current ≠ 0 then
    (some (some (c.wordIndex * wordBits + Word.lowest c.current)),
      { c with current := Word.clearLowest c.current })
  else
    match c.words[c.wordIndex + 1]? with
    | some word => (none, { c with wordIndex := c.wordIndex + 1, current := word })
    | none => (some none, { c with wordIndex := c.wordIndex + 1 })

/-- A turn that does not end the search goes to a word that is there. -/
theorem turn_eq_none_iff {c rest : Cursor} : c.turn = (none, rest) ↔
    c.current = 0 ∧ ∃ h : c.wordIndex + 1 < c.words.size,
      rest = { c with wordIndex := c.wordIndex + 1, current := c.words[c.wordIndex + 1] } := by
  unfold turn
  by_cases hcurrent : c.current = 0
  · by_cases hmore : c.wordIndex + 1 < c.words.size
    · simp [hcurrent, hmore, eq_comm]
    · simp [hcurrent, hmore]
  · simp [hcurrent]

/-- The next set position and the cursor behind it.  At the end there is no
position, and the cursor stays at the end. -/
def next (c : Cursor) : Option Nat × Cursor :=
  match _ : c.turn with
  | (some answer, rest) => (answer, rest)
  | (none, rest) => next rest
termination_by c.words.size - c.wordIndex
decreasing_by
  rename_i hturn
  obtain ⟨-, hmore, rfl⟩ := turn_eq_none_iff.1 hturn
  show c.words.size - (c.wordIndex + 1) < c.words.size - c.wordIndex
  omega

/-- Up to `limit` positions, added to those already `taken`, and the cursor
behind them. -/
def takeFrom : Nat → Cursor → Array Nat → Array Nat × Cursor
  | 0, c, taken => (taken, c)
  | limit + 1, c, taken =>
    match c.next with
    | (some position, rest) => takeFrom limit rest (taken.push position)
    | (none, rest) => (taken, rest)

/-- Up to `limit` positions and the cursor behind them. -/
def take (limit : Nat) (c : Cursor) : List Nat × Cursor :=
  let (taken, rest) := takeFrom limit c #[]
  (taken.toList, rest)

/-- No fewer than the positions that a cursor has left. -/
def bound (c : Cursor) : Nat :=
  (c.words.size + 1) * wordBits

/-- All positions that a cursor has left. -/
def toList (c : Cursor) : List Nat :=
  (c.take c.bound).1

end Cursor

namespace Bitmap

/-- The cursor before the first set bit. -/
def cursor (b : Bitmap) : Cursor :=
  { words := b.words, wordIndex := 0, current := b.words.getD 0 0 }

/-- The set positions in ascending order. -/
def ones (b : Bitmap) : List Nat :=
  b.cursor.toList

/-- The first set position, if any. -/
def first? (b : Bitmap) : Option Nat :=
  b.cursor.next.1

end Bitmap

end StripePruning
