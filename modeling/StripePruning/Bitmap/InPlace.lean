import StripePruning.Bitmap.Cursor

/-!
# Bitmaps and cursors in place

Bitmaps that are kept on a shelf while calls change them, and cursors that are
kept while calls move them on.  An operation in place may fail after it has
changed a part of its bitmap, so `InPlace` keeps what was done before a
failure.  `Shelf.perform` gives the shelf that a call leaves together with the
outcome of the call, and `Walk.perform` does the same for cursors.
-/

namespace StripePruning

/-! ## One bitmap -/

/-- An operation that changes a bitmap step by step.  What was changed before a
failure stays changed. -/
abbrev InPlace := ExceptT Error (StateM Bitmap)

namespace InPlace

/-- Changes the bit at a position. -/
def assign (position : Nat) (value : Bool) : InPlace Unit := do
  let b ← get
  if b.len ≤ position then throw (.outOfRange position b.len)
  set { b with words := b.words.modify (position / wordBits) (Word.update · position value) }

/-- Joins a word of another bitmap to the word at the same place. -/
def uniteWord (other : Bitmap) (i : Nat) : InPlace Unit :=
  modify fun b => { b with words := b.words.modify i (· ||| other.words.getD i 0) }

/-- Joins another bitmap to a bitmap, one word after the other. -/
def unite (other : Bitmap) : InPlace Unit := do
  let b ← get
  ExceptT.mk (pure (b.checkLength other))
  (List.range (min b.words.size other.words.size)).forM (uniteWord other)

/-- The bitmap that an operation leaves, and its outcome. -/
def leave (operation : InPlace Unit) (b : Bitmap) : Bitmap × Except Error Unit :=
  let (outcome, left) := operation.run.run b
  (left, outcome)

end InPlace

/-! ## Many bitmaps -/

/-- A call on the bitmaps of a shelf, which go by their places. -/
inductive BitmapCall where
  | zeros (len : Nat)
  | ofFn (len : Nat) (bits : Nat → Bool)
  | copy (place : Nat)
  | assign (place position : Nat) (value : Bool)
  | unite (place other : Nat)
  | difference (place other : Nat)

/-- Bitmaps in the order in which they were made. -/
abbrev Shelf := List Bitmap

namespace Shelf

/-- The shelf with a new bitmap, if it could be made. -/
def add (shelf : Shelf) : Except Error Bitmap → Shelf × Except Error Unit
  | .ok b => (shelf ++ [b], .ok ())
  | .error error => (shelf, .error error)

/-- The shelf with an operation applied to the bitmap at a place. -/
def change (shelf : Shelf) (place : Nat) (b : Bitmap) (operation : InPlace Unit) :
    Shelf × Except Error Unit :=
  let (left, outcome) := operation.leave b
  (shelf.set place left, outcome)

/-- The shelf that a call leaves and the outcome of the call.  A call on a place
without a bitmap does nothing. -/
def perform (shelf : Shelf) (call : BitmapCall) : Shelf × Except Error Unit :=
  match call with
  | .zeros len => shelf.add (.ok (.zeros len))
  | .ofFn len bits => shelf.add (.ok (.ofFn len bits))
  | .copy place =>
    match shelf[place]? with
    | some b => shelf.add (.ok b)
    | none => (shelf, .ok ())
  | .assign place position value =>
    match shelf[place]? with
    | some b => shelf.change place b (.assign position value)
    | none => (shelf, .ok ())
  | .unite place other =>
    match shelf[place]?, shelf[other]? with
    | some b, some joined => shelf.change place b (.unite joined)
    | _, _ => (shelf, .ok ())
  | .difference place other =>
    match shelf[place]?, shelf[other]? with
    | some b, some removed => shelf.add (b.difference removed)
    | _, _ => (shelf, .ok ())

/-- The shelf that a sequence of calls leaves, whether or not they fail.  It is
empty before the first one. -/
def performAll (calls : List BitmapCall) : Shelf :=
  calls.foldl (fun shelf call => (perform shelf call).1) []

end Shelf

/-! ## One cursor -/

namespace Cursor

/-- The cursor after some positions have been asked for. -/
def after : Nat → Cursor → Cursor
  | 0, c => c
  | count + 1, c => after count c.next.2

/-- The answer of a search that ends within some turns, and the cursor behind
it. -/
def search : Nat → Cursor → Option (Option Nat × Cursor)
  | 0, _ => none
  | turns + 1, c =>
    match c.turn with
    | (some answer, rest) => some (answer, rest)
    | (none, rest) => search turns rest

end Cursor

/-! ## Many cursors -/

/-- A call on cursors, which go by their places. -/
inductive CursorCall where
  | next (place : Nat)
  | copy (place : Nat)

/-- Cursors in the order in which they were made. -/
abbrev Walk := List Cursor

namespace Walk

/-- The cursors that a call leaves, and the position that it answers. -/
def perform (walk : Walk) (call : CursorCall) : Walk × Option Nat :=
  match call with
  | .next place =>
    match walk[place]? with
    | some c => (walk.set place c.next.2, c.next.1)
    | none => (walk, none)
  | .copy place =>
    match walk[place]? with
    | some c => (walk ++ [c], none)
    | none => (walk, none)

/-- The cursors that a sequence of calls leaves of one cursor. -/
def performAll (c : Cursor) (calls : List CursorCall) : Walk :=
  calls.foldl (fun walk call => (perform walk call).1) [c]

end Walk

end StripePruning
