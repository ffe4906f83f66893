import Std.Data.TreeSet
import StripePruning.Index.Basic
import StripePruning.Index.BlockFilter

/-!
# Filters per stripe

One split block filter for every stripe, all of the same size: the one for
the stripe with the most different values.
-/

namespace StripePruning

/-- The filters of the stripes, made for a probability of false positives. -/
structure PerStripeBloom where
  probability : Float
  filters : Array BlockFilter

namespace PerStripeBloom

/-- The name of the filters for a probability. -/
def label (probability : Float) : String :=
  s!"PerStripeBloom/{positional probability}"

/-- The most stripes whose filters can be stored together. -/
def maxStripes : Nat := Nat.pow 2 15

/-- The number of different values of a list. -/
def distinctCount (values : List Int64) : Nat :=
  (Std.TreeSet.ofList values).size

/-- The greatest number of different values in one stripe, at least one. -/
def widestStripe (stripes : List (List Int64)) : Nat :=
  stripes.foldl (fun most stripe => max most (distinctCount stripe)) 1

/-- The filters of a column, each with all values of its stripe inserted. -/
def build (c : Column) (stripeSize : Nat) (probability : Float) :
    Except Error PerStripeBloom := do
  checkStripeSize (label probability) stripeSize
  if !(0.0 < probability && probability < 1.0) then
    throw (.construction (label probability) (.probabilityOutside probability))
  let stripes := chunks stripeSize c.values.toList
  if maxStripes < stripes.length then
    throw (.tooManyStripes stripes.length)
  let bytes := BlockFilter.bytesFor (widestStripe stripes) probability
  return { probability, filters := (stripes.map (BlockFilter.ofValues bytes)).toArray }

/-- The number of stripes. -/
def numStripes (p : PerStripeBloom) : Nat :=
  p.filters.size

/-- Whether the filter of a stripe may contain a value. -/
def mayContain (p : PerStripeBloom) (id : Nat) (value : Int64) : Bool :=
  match p.filters[id]? with
  | some filter => filter.mayContain value
  | none => false

instance : StripeIndex PerStripeBloom where
  name p := label p.probability
  byteSize p := p.filters.foldl (fun total filter => total + filter.storedBytes) 0
  stripeContains := mayContain

end PerStripeBloom

end StripePruning
