import StripePruning.Bitmap.Word
import StripePruning.Error

/-!
# Bitmaps

A bitmap of `len` bits, packed into words.  An index answers a lookup with
such a bitmap, one bit for each stripe.

* `get`, `set`: one bit;
* `union`, `difference`: two bitmaps of the same length;
* `count`: the number of set bits;
* `WellFormed`: no word is missing and no bit past the end is set, so two
  well-formed bitmaps are equal exactly when they have the same bits.
-/

namespace StripePruning

/-- `len` bits in `words`, 64 to a word, the lowest bit of a word first. -/
structure Bitmap where
  len : Nat
  words : Array UInt64
deriving DecidableEq

namespace Bitmap

/-- The number of words that hold `len` bits. -/
def wordsFor (len : Nat) : Nat :=
  (len + (wordBits - 1)) / wordBits

/-- A bitmap of `len` clear bits. -/
def zeros (len : Nat) : Bitmap :=
  { len, words := Array.replicate (wordsFor len) 0 }

/-- The bitmap whose bit at every position below `len` is given by `bits`. -/
def ofFn (len : Nat) (bits : Nat → Bool) : Bitmap :=
  let word (i : Nat) := Word.ofBits fun bit =>
    let position := i * wordBits + bit
    position < len && bits position
  { len, words := (Array.range (wordsFor len)).map word }

/-- The bytes that the words take. -/
def byteSize (b : Bitmap) : Nat :=
  b.words.size * 8

/-- Whether the bitmap has no bits at all. -/
def isEmpty (b : Bitmap) : Bool :=
  b.len == 0

/-- The bit at a position, clear past the end. -/
def get (b : Bitmap) (position : Nat) : Bool :=
  position < b.len && Word.test (b.words.getD (position / wordBits) 0) position

/-- A bitmap with one bit changed.  The position must lie below the length. -/
def set (b : Bitmap) (position : Nat) (value : Bool) : Except Error Bitmap :=
  if position < b.len then
    .ok { b with words := b.words.modify (position / wordBits) (Word.update · position value) }
  else
    .error (.outOfRange position b.len)

/-- The number of set bits. -/
def count (b : Bitmap) : Nat :=
  b.words.foldl (fun total word => total + Word.count word) 0

/-- Fails unless two bitmaps have the same length. -/
def checkLength (a b : Bitmap) : Except Error Unit :=
  if a.len = b.len then .ok () else .error (.lengthMismatch a.len b.len)

/-- The bits set in either of two bitmaps of the same length. -/
def union (a b : Bitmap) : Except Error Bitmap := do
  checkLength a b
  return { a with words := Array.zipWith (· ||| ·) a.words b.words }

/-- The bits set in the first of two bitmaps of the same length and not in the
second. -/
def difference (a b : Bitmap) : Except Error Bitmap := do
  checkLength a b
  return { a with words := Array.zipWith (fun x y => x &&& ~~~y) a.words b.words }

/-- The bits as a text of zeros and ones, the first position first. -/
def text (b : Bitmap) : String :=
  String.ofList ((List.range b.len).map fun position => if b.get position then '1' else '0')

/-- A bitmap that operations on bitmaps can reach: it has the words its length
needs, and every bit past the end is clear. -/
def WellFormed (b : Bitmap) : Prop :=
  b.words.size = wordsFor b.len ∧
    ∀ position, b.len ≤ position → Word.test (b.words.getD (position / wordBits) 0) position = false

end Bitmap

end StripePruning
