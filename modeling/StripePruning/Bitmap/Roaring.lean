import StripePruning.Bitmap.Cursor

/-!
# The portable encoding of a bitmap

Set positions are grouped into containers by their upper part, 65536
positions to a container.  A header names the containers that are not empty,
with their sizes and where their contents start.  A container with few
positions lists their lower halves; one with many holds its 1024 words.
-/

namespace StripePruning

/-- The bytes of the two lowest bytes of `n`, the lowest first. -/
def shortBytes (n : Nat) : List UInt8 :=
  [n.toUInt8, (n / Nat.pow 2 8).toUInt8]

/-- The four lowest bytes of `n`, the lowest first. -/
def longBytes (n : Nat) : List UInt8 :=
  shortBytes n ++ shortBytes (n / Nat.pow 2 16)

namespace Bitmap

/-- The set positions of one block of 65536, as a part of the bitmap. -/
structure Container where
  /-- The number of the block. -/
  key : Nat
  words : Array UInt64
  cardinality : Nat

namespace Container

/-- The words that cover one block. -/
def wordCount : Nat := 1024

/-- The most positions that a container lists one by one. -/
def listLimit : Nat := 4096

/-- Container `key` of a bitmap. -/
def ofBitmap (b : Bitmap) (key : Nat) : Container :=
  let words := (Array.range wordCount).map fun i => b.words.getD (key * wordCount + i) 0
  { key, words, cardinality := words.foldl (fun total word => total + Word.count word) 0 }

/-- The positions of a container within its block. -/
def positions (c : Container) : List Nat :=
  (Cursor.mk c.words 0 (c.words.getD 0 0)).toList

/-- The contents of a container: its positions, or all its words. -/
def contents (c : Container) : List UInt8 :=
  if c.cardinality ≤ listLimit then c.positions.flatMap shortBytes
  else c.words.toList.flatMap Word.bytes

/-- The number of bytes of the contents. -/
def contentSize (c : Container) : Nat :=
  if c.cardinality ≤ listLimit then 2 * c.cardinality else 8 * wordCount

/-- The header entry of a container: its key and one less than its size. -/
def description (c : Container) : List UInt8 :=
  shortBytes c.key ++ shortBytes (c.cardinality - 1)

end Container

/-- The containers with set positions, in ascending order. -/
def containers (b : Bitmap) : List Container :=
  let count := (b.words.size + (Container.wordCount - 1)) / Container.wordCount
  ((List.range count).map (Container.ofBitmap b)).filter fun c => c.cardinality ≠ 0

/-- The offsets of containers whose contents start at `start`. -/
def containerOffsets (start : Nat) : List Container → List UInt8
  | [] => []
  | c :: rest => longBytes start ++ containerOffsets (start + c.contentSize) rest

/-- The mark that opens an encoding without run containers. -/
def roaringMark : Nat := 12346

/-- The encoding of the set positions. -/
def roaring (b : Bitmap) : List UInt8 :=
  let containers := b.containers
  let header := 8 + 8 * containers.length
  longBytes roaringMark ++ longBytes containers.length ++
    containers.flatMap Container.description ++ containerOffsets header containers ++
    containers.flatMap Container.contents

/-- The greatest length whose positions fit the portable encoding. -/
def roaringLimit : Nat := Nat.pow 2 32 - 1

/-- The bytes of a bitmap: the portable encoding, or its words if it is too
long for that. -/
def encode (b : Bitmap) : List UInt8 :=
  if b.len ≤ roaringLimit then b.roaring else b.words.toList.flatMap Word.bytes

/-- A buffer with the encoding of a bitmap behind its contents. -/
def appendTo (b : Bitmap) (buffer : List UInt8) : List UInt8 :=
  buffer ++ b.encode

end Bitmap

end StripePruning
