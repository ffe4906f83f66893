import StripePruning.Random.Source

/-!
# The seeded keystream

The words of the ChaCha stream with twelve rounds.  A 64-bit seed is spread
over the eight words of the key by a small congruential generator, the nonce
is zero, and the blocks are numbered from zero.
-/

namespace StripePruning

/-- A word rotated to the left by `turn` bits. -/
def rotateLeft (word turn : UInt32) : UInt32 :=
  word <<< turn ||| word >>> (32 - turn)

/-! ## Blocks -/

/-- Four words of the sixteen of a block.  A block is worked on by rows, so a
round treats its four columns at once. -/
structure Row where
  a : UInt32
  b : UInt32
  c : UInt32
  d : UInt32

namespace Row

/-- The sums of the words in the same columns. -/
def add (x y : Row) : Row :=
  { a := x.a + y.a, b := x.b + y.b, c := x.c + y.c, d := x.d + y.d }

/-- The differences in bits of the words in the same columns, rotated. -/
def mix (x y : Row) (turn : UInt32) : Row :=
  { a := rotateLeft (x.a ^^^ y.a) turn
    b := rotateLeft (x.b ^^^ y.b) turn
    c := rotateLeft (x.c ^^^ y.c) turn
    d := rotateLeft (x.d ^^^ y.d) turn }

/-- The columns moved by one, two or three places. -/
def turnOne (x : Row) : Row := { a := x.b, b := x.c, c := x.d, d := x.a }

@[inherit_doc turnOne]
def turnTwo (x : Row) : Row := { a := x.c, b := x.d, c := x.a, d := x.b }

@[inherit_doc turnOne]
def turnThree (x : Row) : Row := { a := x.d, b := x.a, c := x.b, d := x.c }

/-- The words of a row in order. -/
def words (x : Row) : List UInt32 := [x.a, x.b, x.c, x.d]

end Row

/-- The sixteen words of a block, by rows. -/
structure Block where
  r0 : Row
  r1 : Row
  r2 : Row
  r3 : Row

namespace Block

/-- One quarter round in every column. -/
def columns (x : Block) : Block :=
  let r0 := x.r0.add x.r1
  let r3 := x.r3.mix r0 16
  let r2 := x.r2.add r3
  let r1 := x.r1.mix r2 12
  let r0 := r0.add r1
  let r3 := r3.mix r0 8
  let r2 := r2.add r3
  let r1 := r1.mix r2 7
  { r0, r1, r2, r3 }

/-- A round over the columns and a round over the diagonals, which are the
columns of the turned rows. -/
def doubleRound (x : Block) : Block :=
  let x := x.columns
  let x := { x with r1 := x.r1.turnOne, r2 := x.r2.turnTwo, r3 := x.r3.turnThree }
  let x := x.columns
  { x with r1 := x.r1.turnThree, r2 := x.r2.turnTwo, r3 := x.r3.turnOne }

/-- Six double rounds, then the block itself added. -/
def scrambled (x : Block) : Block :=
  let y := (List.range 6).foldl (fun y _ => y.doubleRound) x
  { r0 := y.r0.add x.r0, r1 := y.r1.add x.r1, r2 := y.r2.add x.r2, r3 := y.r3.add x.r3 }

/-- The words of a block in order. -/
def words (x : Block) : Array UInt32 :=
  (x.r0.words ++ x.r1.words ++ x.r2.words ++ x.r3.words).toArray

end Block

/-! ## The stream -/

/-- A place in the stream of a key: the number of the next block and what is
left of the last one. -/
structure Keystream where
  keyLow : Row
  keyHigh : Row
  counter : UInt64
  buffer : Array UInt32
  position : Nat

namespace Keystream

/-- The constant first row of every block. -/
def constants : Row :=
  { a := 0x61707865, b := 0x3320646e, c := 0x79622d32, d := 0x6b206574 }

/-- The words of the block with the given number. -/
def block (low high : Row) (counter : UInt64) : Array UInt32 :=
  (Block.scrambled
    { r0 := constants
      r1 := low
      r2 := high
      r3 := { a := counter.toUInt32, b := (counter >>> 32).toUInt32, c := 0, d := 0 } }).words

/-- The next word of the stream. -/
def nextWord (s : Keystream) : UInt32 × Keystream :=
  if s.position < s.buffer.size then
    (s.buffer.getD s.position 0, { s with position := s.position + 1 })
  else
    let buffer := block s.keyLow s.keyHigh s.counter
    (buffer.getD 0 0, { s with counter := s.counter + 1, buffer, position := 1 })

instance : RandomSource Keystream where
  nextWord := nextWord

/-- One step of the generator that spreads a seed. -/
def spreadStep (state : UInt64) : UInt64 :=
  state * 6364136223846793005 + 11634580027462260723

/-- The word that a state of the spreading generator stands for. -/
def spreadWord (state : UInt64) : UInt32 :=
  let mixed := ((state >>> 18 ^^^ state) >>> 27).toUInt32
  let turn := (state >>> 59).toUInt32
  rotateLeft mixed ((32 - turn) % 32)

/-- The stream of a seed. -/
def ofSeed (seed : UInt64) : Keystream :=
  let s1 := spreadStep seed
  let s2 := spreadStep s1
  let s3 := spreadStep s2
  let s4 := spreadStep s3
  let s5 := spreadStep s4
  let s6 := spreadStep s5
  let s7 := spreadStep s6
  let s8 := spreadStep s7
  { keyLow := { a := spreadWord s1, b := spreadWord s2, c := spreadWord s3, d := spreadWord s4 }
    keyHigh := { a := spreadWord s5, b := spreadWord s6, c := spreadWord s7, d := spreadWord s8 }
    counter := 0
    buffer := #[]
    position := 0 }

end Keystream

end StripePruning
