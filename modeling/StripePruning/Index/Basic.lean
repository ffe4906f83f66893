import StripePruning.Bitmap.Stats
import StripePruning.Column.Stripe

/-!
# Index structures

A pruning index says for a value which stripes may hold it.  Whatever its
kind, it answers through `StripeIndex`.  An index is *sound* if it never
denies a value to a stripe that holds it; it may name stripes that do not
hold the value.
-/

namespace StripePruning

/-- What every kind of index can tell. -/
class StripeIndex (ι : Type) where
  /-- The kind of the index and its parameters. -/
  name : ι → String
  /-- The bytes that the index takes. -/
  byteSize : ι → Nat
  /-- The means over the bitmaps that the index keeps, if it keeps any. -/
  bitmapStats? : ι → Option BitmapStats := fun _ => none
  /-- Whether stripe `id` may hold a value.  Stripes that the index does not
  know never do. -/
  stripeContains : ι → Nat → Int64 → Bool
  /-- The stripes among the first `n` that may hold a value. -/
  qualifyingStripes : ι → Int64 → Nat → Bitmap :=
    fun index value n => Bitmap.ofFn n fun id => stripeContains index id value

namespace StripeIndex

variable {ι : Type} [StripeIndex ι]

/-- An index as a line of text for a developer. -/
def debugText (index : ι) : String :=
  s!"IndexStructure \x7b name: \"{name index}\", byte_size: {byteSize index} \x7d"

/-- Whether the encoded index takes no bytes once compressed.  No compressed
encoding is empty, not even that of an empty index. -/
def compressesToNothing (_ : ι) : Bool := false

end StripeIndex

/-- Fails for a stripe size that no index can be built with. -/
def checkStripeSize (index : String) (stripeSize : Nat) : Except Error Unit :=
  if stripeSize = 0 then .error (.construction index .zeroStripeSize) else .ok ()

end StripePruning
