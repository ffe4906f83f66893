/-!
# Reading portable bitmaps

The portable form of a set of positions below `2 ^ 32`, read from bytes.  The
positions lie in blocks of 65536.  A header gives the blocks that are there,
the number of positions in each, and where its contents start, counted from
the first byte of the form.  A block of at most 4096 positions lists them
within the block; a fuller one has a bit for every position.

A reader takes what it reads from the front of some bytes and checks all that
the form demands, so it also tells where the form ends.
-/

namespace StripePruning

/-- Takes a value from the front of some bytes.  There is none if the bytes are
not in its form. -/
abbrev ByteReader := StateT (List UInt8) Option

namespace ByteReader

variable {α : Type}

/-! ## Parts of a form -/

/-- Refuses the bytes unless a condition holds. -/
def demand (condition : Bool) : ByteReader Unit := fun bytes =>
  if condition then some ((), bytes) else none

/-- One byte. -/
def byte : ByteReader Nat
  | [] => none
  | first :: rest => some (first.toNat, rest)

/-- A number of some bytes, the lowest first. -/
def number : Nat → ByteReader Nat
  | 0 => pure 0
  | width + 1 => do
    let low ← byte
    let high ← number width
    return low + 256 * high

/-- Several values in a row. -/
def times (read : ByteReader α) : Nat → ByteReader (List α)
  | 0 => pure []
  | count + 1 => do
    let first ← read
    let others ← times read count
    return first :: others

/-! ## Blocks -/

/-- What the header says about one block: its number and how many positions it
has, which is one more than what is written. -/
def keyAndCardinality : ByteReader (Nat × Nat) := do
  let key ← number 2
  let cardinality ← number 2
  return (key, cardinality + 1)

/-- The positions of a block that lists them, in ascending order. -/
def listed (cardinality : Nat) : ByteReader (List Nat) := do
  let positions ← times (number 2) cardinality
  demand (positions.Pairwise (· < ·))
  return positions

/-- The positions of a block with a bit for each. -/
def packed (cardinality : Nat) : ByteReader (List Nat) := do
  let words ← times (number 8) 1024
  let positions := (List.range 65536).filter fun p => (words.getD (p / 64) 0).testBit (p % 64)
  demand (positions.length = cardinality)
  return positions

/-- The positions of a block within it. -/
def block (cardinality : Nat) : ByteReader (List Nat) :=
  if cardinality ≤ 4096 then listed cardinality else packed cardinality

/-- The bytes that a block takes. -/
def blockSize (cardinality : Nat) : Nat :=
  if cardinality ≤ 4096 then 2 * cardinality else 8192

/-- The positions of blocks in a row, `place` bytes behind the start of the
form.  Each has to begin where the header says. -/
def blocks (place : Nat) : List ((Nat × Nat) × Nat) → ByteReader (List Nat)
  | [] => pure []
  | ((key, cardinality), offset) :: rest => do
    demand (offset = place)
    let positions ← block cardinality
    let others ← blocks (place + blockSize cardinality) rest
    return positions.map (key * 65536 + ·) ++ others

/-! ## Forms -/

/-- The positions of a bitmap in the portable form without run containers. -/
def portable : ByteReader (List Nat) := do
  let mark ← number 4
  demand (mark = 12346)
  let count ← number 4
  demand (count ≤ 65536)
  let entries ← times keyAndCardinality count
  demand ((entries.map (·.1)).Pairwise (· < ·))
  let offsets ← times (number 4) count
  blocks (8 + 8 * count) (entries.zip offsets)

/-- A value of eight bytes and the positions behind it. -/
def entry : ByteReader (Int64 × List Nat) := do
  let value ← number 8
  let positions ← portable
  return (value.toUInt64.toInt64, positions)

/-- What is read again and again until no bytes are left, at most `limit`
times. -/
def untilEnd (read : ByteReader α) : Nat → List UInt8 → Option (List α)
  | _, [] => some []
  | 0, _ :: _ => none
  | limit + 1, bytes => do
    let (first, rest) ← read.run bytes
    let others ← untilEnd read limit rest
    return first :: others

/-- Values with positions that take up some bytes. -/
def entries? (bytes : List UInt8) : Option (List (Int64 × List Nat)) :=
  untilEnd entry bytes.length bytes

end ByteReader

end StripePruning
