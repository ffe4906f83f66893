import StripePruning.Bitmap.Cursor

/-!
# Density and clustering

The density of a bitmap is the share of its bits that are set; its clustering
is the mean length of its runs of set bits.  `BitmapStats` keeps the means of
both over several bitmaps, one bitmap at a time.

A report has doubles here.  The formulas ask for natural numbers, sums, differences
and quotients only, so the same definitions also speak of exact numbers.
-/

namespace StripePruning

/-- The double nearest to a natural number. -/
instance natCastFloat : NatCast Float where
  natCast := Nat.toFloat

namespace Bitmap

variable {α : Type} [Zero α] [Div α] [NatCast α]

/-- One more position of an ascending list: it starts a run unless it follows
the position before it.  The state is the number of runs so far and the last
position. -/
def countRun : Nat × Option Nat → Nat → Nat × Option Nat
  | (runs, none), position => (runs + 1, some position)
  | (runs, some previous), position =>
    (if previous + 1 = position then runs else runs + 1, some position)

/-- The number of runs of set bits. -/
def runs (b : Bitmap) : Nat :=
  (b.ones.foldl countRun (0, none)).1

/-- The share of set bits, zero for a bitmap without bits. -/
def density (b : Bitmap) : α :=
  if b.len = 0 then 0 else (b.count : α) / (b.len : α)

/-- The mean length of a run of set bits, zero without set bits. -/
def clustering (b : Bitmap) : α :=
  let runs := b.runs
  if runs = 0 then 0 else (b.count : α) / (runs : α)

end Bitmap

/-- The mean density and clustering of `bitmaps` bitmaps. -/
@[ext]
structure BitmapStats (α : Type := Float) where
  bitmaps : Nat
  density : α
  clustering : α

namespace BitmapStats

/-- The means over no bitmap. -/
instance noBitmaps {α : Type} [Zero α] : EmptyCollection (BitmapStats α) where
  emptyCollection := { bitmaps := 0, density := 0, clustering := 0 }

variable {α : Type} [Zero α] [Add α] [Sub α] [Div α] [NatCast α]

/-- The means with one more bitmap. -/
def add (s : BitmapStats α) (b : Bitmap) : BitmapStats α :=
  let n : α := ((s.bitmaps + 1 : Nat) : α)
  { bitmaps := s.bitmaps + 1
    density := s.density + (b.density - s.density) / n
    clustering := s.clustering + (b.clustering - s.clustering) / n }

/-- The means over a list of bitmaps, taken in order. -/
def ofList (bitmaps : List Bitmap) : BitmapStats α :=
  bitmaps.foldl add {}

/-- The means as a text. -/
def text (s : BitmapStats) : String :=
  s!"density {fixedPlaces 4 s.density}, clustering {fixedPlaces 2 s.clustering} " ++
    s!"over {s.bitmaps} bitmaps"

end BitmapStats

end StripePruning
