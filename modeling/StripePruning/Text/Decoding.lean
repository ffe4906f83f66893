/-!
# Text from bytes

Bytes are read piece by piece.  Bytes that are not text break the reading:
the pieces before them count, and the piece they stand in does not.
-/

namespace StripePruning

/-- How a reading ends. -/
inductive ReadEnd where
  /-- Everything was read. -/
  | complete
  /-- What follows could not be read. -/
  | broken
deriving DecidableEq

/-! ## Pieces -/

/-- Puts an element in front of a list that is already cut: a mark ends a piece
of its own, and anything else joins the piece behind it. -/
def attach {α : Type} (isMark : α → Bool) (x : α) (pieces : List (List α)) : List (List α) :=
  if isMark x then [x] :: pieces
  else
    match pieces with
    | piece :: pieces => (x :: piece) :: pieces
    | [] => [[x]]

/-- A list cut behind each mark.  The marks stay with the piece before them,
and nothing follows a mark at the very end. -/
def cutBehind {α : Type} (isMark : α → Bool) (list : List α) : List (List α) :=
  list.foldr (attach isMark) []

/-! ## Decoding -/

/-- The text that some bytes stand for, if they are UTF-8. -/
def textOf? (bytes : List UInt8) : Option String :=
  String.fromUTF8? ⟨bytes.toArray⟩

/-- The characters of some bytes.  If they are not text as a whole, each byte
outside ASCII counts as one unknown character. -/
def charsOf (bytes : List UInt8) : List Char :=
  match textOf? bytes with
  | some text => text.toList
  | none => bytes.map fun byte => if byte < 128 then Char.ofUInt8 byte else '\uFFFD'

/-- Adds the texts of the pieces before the first one that is not text to those
already `read`. -/
def textsInto (read : Array String) : List (List UInt8) → Array String
  | [] => read
  | piece :: rest =>
    match textOf? piece with
    | some text => textsInto (read.push text) rest
    | none => read

/-- The texts of the pieces before the first one that is not text. -/
def textsOf (pieces : List (List UInt8)) : List String :=
  (textsInto #[] pieces).toList

end StripePruning
