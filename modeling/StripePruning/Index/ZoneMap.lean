import StripePruning.Index.Basic

/-!
# Zone maps

A zone map keeps the least and the greatest value of every stripe, null
values apart.  A stripe may hold the values between them.
-/

namespace StripePruning

/-- The least and the greatest values of the stripes. -/
structure ZoneMap where
  minimums : Array Int64
  maximums : Array Int64

namespace ZoneMap

/-- The name of all zone maps. -/
def label : String := "ZoneMap"

/-- The bounds `(least, greatest)` widened to take in a value. -/
def widen (bounds : Int64 × Int64) (value : Int64) : Int64 × Int64 :=
  (min bounds.1 value, max bounds.2 value)

/-- The least and the greatest of the values that are not null.  Without any,
the least is above the greatest. -/
def zoneOf (values : List Int64) : Int64 × Int64 :=
  (values.filter (· ≠ Column.nullValue)).foldl widen (Int64.maxValue, Int64.minValue)

/-- The zone map of a column. -/
def build (c : Column) (stripeSize : Nat) : Except Error ZoneMap := do
  checkStripeSize label stripeSize
  let zones := (chunks stripeSize c.values.toList).map zoneOf
  return { minimums := (zones.map (·.1)).toArray, maximums := (zones.map (·.2)).toArray }

/-- The number of stripes. -/
def numStripes (z : ZoneMap) : Nat :=
  z.minimums.size

/-- The zone of a stripe, if there is such a stripe. -/
def zone? (z : ZoneMap) (id : Nat) : Option (Int64 × Int64) :=
  match z.minimums[id]?, z.maximums[id]? with
  | some least, some greatest => some (least, greatest)
  | _, _ => none

/-- Whether a value lies in the zone of a stripe. -/
def covers (z : ZoneMap) (id : Nat) (value : Int64) : Bool :=
  match z.zone? id with
  | some (least, greatest) => least ≤ value && value ≤ greatest
  | none => false

instance : StripeIndex ZoneMap where
  name _ := label
  byteSize z := 8 * (z.minimums.size + z.maximums.size)
  stripeContains := covers

end ZoneMap

end StripePruning
