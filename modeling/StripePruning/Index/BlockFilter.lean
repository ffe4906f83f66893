import Std.Data.HashSet
import StripePruning.Bitmap.Word

/-!
# Split block filters

A filter for a set of integers.  Its bits are divided into blocks of eight
words of 32 bits.  The hash of a value selects a block with its upper half
and, with its lower half, one bit in each word of the block.  A value is
inserted by setting its eight bits, and may be present if all of them are set.
Bits are never cleared, so an inserted value is always found.
-/

namespace StripePruning

/-! ## Hashing -/

namespace Hash64

/-- The multipliers of the 64-bit hash. -/
def prime1 : UInt64 := 0x9E3779B185EBCA87
@[inherit_doc prime1]
def prime2 : UInt64 := 0xC2B2AE3D27D4EB4F
@[inherit_doc prime1]
def prime3 : UInt64 := 0x165667B19E3779F9
@[inherit_doc prime1]
def prime4 : UInt64 := 0x85EBCA77C2B2AE63
@[inherit_doc prime1]
def prime5 : UInt64 := 0x27D4EB2F165667C5

/-- A word rotated to the left. -/
def rotate (word turn : UInt64) : UInt64 :=
  word <<< turn ||| word >>> (64 - turn)

/-- The hash with seed zero of the eight bytes of a word. -/
def ofWord (word : UInt64) : UInt64 :=
  let lane := rotate (word * prime2) 31 * prime1
  let h := rotate ((prime5 + 8) ^^^ lane) 27 * prime1 + prime4
  let h := (h ^^^ h >>> 33) * prime2
  let h := (h ^^^ h >>> 29) * prime3
  h ^^^ h >>> 32

/-- The hash of an integer, taken as its eight bytes with the lowest first. -/
def ofInt64 (value : Int64) : UInt64 :=
  ofWord value.toUInt64

end Hash64

/-! ## Filters -/

/-- A filter of `bytes` bytes, as the set of its set bits. -/
structure BlockFilter where
  bytes : Nat
  bits : Std.HashSet Nat

namespace BlockFilter

/-- The bytes of one block. -/
def blockBytes : Nat := 32

/-- The multipliers that pick the bit of each word of a block. -/
def salts : List UInt32 :=
  [0x47b6137b, 0x44974d91, 0x8824ad5b, 0xa2b7289d, 0x705495c7, 0x2df1424b, 0x9efc4947, 0x5c6bfb31]

/-- A filter without set bits. -/
def empty (bytes : Nat) : BlockFilter :=
  { bytes, bits := ∅ }

/-- The number of blocks. -/
def blocks (f : BlockFilter) : Nat :=
  f.bytes / blockBytes

/-- The block that a hash selects among `blocks`. -/
def blockOf (blocks : Nat) (hash : UInt64) : Nat :=
  (hash >>> 32).toNat * blocks / Nat.pow 2 32

/-- The positions in the filter of the bits that a hash stands for, one in each
word of its block. -/
def positions (blocks : Nat) (hash : UInt64) : List Nat :=
  let first := blockOf blocks hash * (8 * blockBytes)
  salts.mapIdx fun word salt =>
    first + 32 * word + ((hash.toUInt32 * salt) >>> 27).toNat

/-- The positions in the filter of the bits of a value. -/
def bitsOf (f : BlockFilter) (value : Int64) : List Nat :=
  positions f.blocks (Hash64.ofInt64 value)

/-- The filter with a value inserted. -/
def insert (f : BlockFilter) (value : Int64) : BlockFilter :=
  { f with bits := (f.bitsOf value).foldl (·.insert ·) f.bits }

/-- The filter of a size with some values inserted. -/
def ofValues (bytes : Nat) (values : List Int64) : BlockFilter :=
  values.foldl insert (empty bytes)

/-- Whether a value may be among the inserted ones. -/
def mayContain (f : BlockFilter) (value : Int64) : Bool :=
  (f.bitsOf value).all fun bit => f.bits.contains bit

/-! ## Sizes -/

/-- The least and the most bytes of a filter. -/
def minBytes : Nat := 32
@[inherit_doc minBytes]
def maxBytes : Nat := 128 * 1024 * 1024

/-- The least power of two that is not below `n`. -/
def powerOfTwoFrom (n : Nat) : Nat :=
  if n ≤ 1 then 1 else Nat.pow 2 ((n - 1).log2 + 1)

/-- The bits that keep the share of false positives among `count` different
values at a probability.  The estimate is cut to 64 bits. -/
def bitsFor (count : Nat) (probability : Float) : Nat :=
  (-8.0 * count.toFloat / (1.0 - probability.pow (1.0 / 8.0)).log).toUInt64.toNat

/-- The bytes of a filter for `count` different values and a probability of
false positives: a power of two within the limits. -/
def bytesFor (count : Nat) (probability : Float) : Nat :=
  powerOfTwoFrom (max minBytes (min (bitsFor count probability / 8) maxBytes))

/-- The number of bytes of `n` written in groups of seven bits. -/
def groupedLength (n : Nat) : Nat :=
  n.log2 / 7 + 1

/-- The bytes of the stored filter: a header, which holds the doubled size in
groups of seven bits, and the bits. -/
def storedBytes (f : BlockFilter) : Nat :=
  14 + groupedLength (2 * f.bytes) + f.bytes

end BlockFilter

end StripePruning
