/-!
# Words of bits

A word holds 64 bits.  This module reads, sets, counts and finds them.
-/

namespace StripePruning

/-- The number of bits in a word. -/
def wordBits : Nat := 64

namespace Word

/-- The word with one set bit, at `bit % 64`. -/
def single (bit : Nat) : UInt64 :=
  1 <<< UInt64.ofNat (bit % wordBits)

/-- Whether the bit at `bit % 64` is set. -/
def test (word : UInt64) (bit : Nat) : Bool :=
  word &&& single bit != 0

/-- A word with the bit at `bit % 64` set or cleared. -/
def update (word : UInt64) (bit : Nat) (value : Bool) : UInt64 :=
  if value then word ||| single bit else word &&& ~~~(single bit)

/-- The word whose bits below `count` are given by `bits`. -/
def ofBitsBelow (bits : Nat → Bool) : Nat → UInt64
  | 0 => 0
  | count + 1 =>
    let word := ofBitsBelow bits count
    if bits count then word ||| single count else word

/-- The word whose bits are given by `bits`. -/
def ofBits (bits : Nat → Bool) : UInt64 :=
  ofBitsBelow bits wordBits

/-- The number of set bits among the lowest `count` bits. -/
def countBelow : Nat → UInt64 → Nat
  | 0, _ => 0
  | count + 1, word =>
    if word = 0 then 0 else (word &&& 1).toNat + countBelow count (word >>> 1)

/-- The number of set bits. -/
def count (word : UInt64) : Nat :=
  countBelow wordBits word

/-- The position of the lowest set bit of a word that has one. -/
def lowest (word : UInt64) : Nat :=
  (word &&& (0 - word)).log2.toNat

/-- A word without its lowest set bit. -/
def clearLowest (word : UInt64) : UInt64 :=
  word &&& (word - 1)

/-- The eight bytes of a word, the lowest first. -/
def bytes (word : UInt64) : List UInt8 :=
  (List.range 8).map fun i => (word >>> UInt64.ofNat (8 * i)).toUInt8

end Word

end StripePruning
