import StripePruning.Index.ZoneMap
import StripePruning.Index.PerStripeBloom
import StripePruning.Index.PerValueBitmap
import StripePruning.Number.Reading
import StripePruning.Text.Blank

/-!
# Index families

`IndexConfig` selects a family of indexes and its parameters, and `Index` is
a built index of any of the families.
-/

namespace StripePruning

/-- A built index. -/
inductive Index where
  | zoneMap (index : ZoneMap)
  | perStripeBloom (index : PerStripeBloom)
  | perValueBitmap (index : PerValueBitmap)

namespace Index

/-- The number of stripes that an index was built for. -/
def numStripes : Index → Nat
  | .zoneMap index => index.numStripes
  | .perStripeBloom index => index.numStripes
  | .perValueBitmap index => index.numStripes

instance : StripeIndex Index where
  name
    | .zoneMap index => StripeIndex.name index
    | .perStripeBloom index => StripeIndex.name index
    | .perValueBitmap index => StripeIndex.name index
  byteSize
    | .zoneMap index => StripeIndex.byteSize index
    | .perStripeBloom index => StripeIndex.byteSize index
    | .perValueBitmap index => StripeIndex.byteSize index
  bitmapStats?
    | .zoneMap index => StripeIndex.bitmapStats? index
    | .perStripeBloom index => StripeIndex.bitmapStats? index
    | .perValueBitmap index => StripeIndex.bitmapStats? index
  stripeContains
    | .zoneMap index => StripeIndex.stripeContains index
    | .perStripeBloom index => StripeIndex.stripeContains index
    | .perValueBitmap index => StripeIndex.stripeContains index
  qualifyingStripes
    | .zoneMap index => StripeIndex.qualifyingStripes index
    | .perStripeBloom index => StripeIndex.qualifyingStripes index
    | .perValueBitmap index => StripeIndex.qualifyingStripes index

end Index

/-- A family of indexes and its parameters. -/
inductive IndexConfig where
  | zoneMap
  /-- Filters for a probability of false positives. -/
  | perStripeBloom (probability : Float)
  | perValueBitmap
deriving BEq

namespace IndexConfig

/-- The probability of false positives where none is given. -/
def standardProbability : Float := 0.01

/-- The families that a run compares where none is given. -/
def standard : List IndexConfig :=
  [.zoneMap, .perStripeBloom standardProbability, .perValueBitmap]

/-- The name of a family. -/
def family : IndexConfig → String
  | .zoneMap => "zone_map"
  | .perStripeBloom _ => "per_stripe_bloom"
  | .perValueBitmap => "per_value_bitmap"

/-- The name of the indexes of a configuration. -/
def indexName : IndexConfig → String
  | .zoneMap => ZoneMap.label
  | .perStripeBloom probability => PerStripeBloom.label probability
  | .perValueBitmap => PerValueBitmap.label

/-- Builds an index of the configuration over a column. -/
def build (config : IndexConfig) (c : Column) (stripeSize : Nat) : Except Error Index :=
  match config with
  | .zoneMap => return .zoneMap (← ZoneMap.build c stripeSize)
  | .perStripeBloom probability =>
    return .perStripeBloom (← PerStripeBloom.build c stripeSize probability)
  | .perValueBitmap => return .perValueBitmap (← PerValueBitmap.build c stripeSize)

/-- The configuration that a family and its parameter name. -/
def ofParts? (family : List Char) (parameter : Option (List Char)) : Option IndexConfig :=
  match String.ofList family, parameter with
  | "zone_map", none => some .zoneMap
  | "per_value_bitmap", none => some .perValueBitmap
  | "per_stripe_bloom", none => some (.perStripeBloom standardProbability)
  | "per_stripe_bloom", some text =>
    (readDouble? (trimBlanks text)).map .perStripeBloom
  | _, _ => none

/-- The configuration that a text such as `zone_map` or
`per_stripe_bloom:0.05` names. -/
def ofText (text : String) : Except Error IndexConfig :=
  let chars := text.toList
  let parsed :=
    match cutAt? ':' chars with
    | some (family, parameter) => ofParts? family (some parameter)
    | none => ofParts? chars none
  match parsed with
  | some config => .ok config
  | none => .error (.unknownIndex text)

end IndexConfig

end StripePruning
