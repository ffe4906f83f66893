import Std.Data.TreeMap
import StripePruning.Bitmap.Roaring
import StripePruning.Index.Basic

/-!
# Bitmaps per value

One bitmap for every value of a column, with a bit for every stripe that
holds the value.  This index is exact, null values included, and serves as
the truth that other indexes are measured against.
-/

namespace StripePruning

/-- The stripes of every value. -/
structure PerValueBitmap where
  numStripes : Nat
  bitmaps : Std.TreeMap Int64 Bitmap

namespace PerValueBitmap

/-- The name of all bitmap indexes. -/
def label : String := "PerValueBitmap"

/-- The index without values for a number of stripes. -/
def empty (numStripes : Nat) : PerValueBitmap :=
  { numStripes, bitmaps := ∅ }

/-- The bitmap of a value, all clear for a value that is not there. -/
def bitmapOf (p : PerValueBitmap) (value : Int64) : Bitmap :=
  p.bitmaps.getD value (Bitmap.zeros p.numStripes)

/-- The index with a value recorded in a stripe. -/
def record (p : PerValueBitmap) (id : Nat) (value : Int64) : Except Error PerValueBitmap := do
  let bitmap ← (p.bitmapOf value).set id true
  return { p with bitmaps := p.bitmaps.insert value bitmap }

/-- The index with all values of the stripes from `id` on recorded. -/
def recordStripes (p : PerValueBitmap) : Nat → List (List Int64) → Except Error PerValueBitmap
  | _, [] => .ok p
  | id, stripe :: rest => do
    let p ← stripe.foldlM (fun p value => p.record id value) p
    recordStripes p (id + 1) rest

/-- The index of a column. -/
def build (c : Column) (stripeSize : Nat) : Except Error PerValueBitmap := do
  checkStripeSize label stripeSize
  recordStripes (empty (c.numStripes stripeSize)) 0 (chunks stripeSize c.values.toList)

/-- Whether a stripe holds a value. -/
def holds (p : PerValueBitmap) (id : Nat) (value : Int64) : Bool :=
  match p.bitmaps.get? value with
  | some bitmap => bitmap.get id
  | none => false

/-- The stripes among the first `n` that hold a value: the bitmap of the value,
cut or extended to `n` bits. -/
def stripesOf (p : PerValueBitmap) (value : Int64) (n : Nat) : Bitmap :=
  match p.bitmaps.get? value with
  | some bitmap => if bitmap.len = n then bitmap else Bitmap.ofFn n bitmap.get
  | none => Bitmap.zeros n

/-- The values in ascending order, each in eight bytes and followed by the encoding of
its bitmap.  This is what is compressed. -/
def encoding (p : PerValueBitmap) : List UInt8 :=
  p.bitmaps.foldl (fun buffer value bitmap =>
    bitmap.appendTo (buffer ++ Word.bytes value.toUInt64)) []

/-- The means over the bitmaps of all values. -/
def stats {α : Type} [Zero α] [Add α] [Sub α] [Div α] [NatCast α] (p : PerValueBitmap) :
    BitmapStats α :=
  .ofList p.bitmaps.values

instance : StripeIndex PerValueBitmap where
  name _ := label
  byteSize p := p.bitmaps.foldl (fun total _ bitmap => total + (8 + bitmap.byteSize)) 0
  bitmapStats? p := some p.stats
  stripeContains := holds
  qualifyingStripes := stripesOf

end PerValueBitmap

end StripePruning
