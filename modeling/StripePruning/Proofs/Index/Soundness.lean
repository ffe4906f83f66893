import StripePruning.Index.Config
import StripePruning.Proofs.Index.Exact
import StripePruning.Proofs.Index.Filters
import StripePruning.Proofs.Index.Zones
import StripePruning.Proofs.Steps

/-!
# Built indexes are sound

What the families of indexes have in common.  `Index.Built` says how an index of
a column can have come about.

* `len_qualifyingStripes`: the answers of every index have the length that was
  asked for.
* `Built.qualifyingStripes_eq`: the answer for `n` stripes is the one that asking
  stripe by stripe gives.
* `Built.stripeContains_of_ne_null`: no value is denied to a stripe that holds it,
  null apart.  The zone map is the one family that leaves null values out.
-/

namespace StripePruning

namespace Index

/-- The answers of every index, built or not, have the length that was asked
for. -/
theorem len_qualifyingStripes (index : Index) (value : Int64) (n : Nat) :
    (StripeIndex.qualifyingStripes index value n).len = n := by
  cases index with
  | zoneMap z => rfl
  | perStripeBloom p => rfl
  | perValueBitmap p =>
    show (p.stripesOf value n).len = n
    rw [PerValueBitmap.stripesOf]
    cases p.bitmaps.get? value with
    | none => rfl
    | some bitmap =>
      show (if bitmap.len = n then bitmap else Bitmap.ofFn n bitmap.get).len = n
      split
      · assumption
      · rfl

/-! ## Built indexes -/

/-- The ways to build an index over a column cut into stripes. -/
inductive Built (c : Column) (stripeSize : Nat) : IndexConfig → Index → Prop where
  | zoneMap {z : ZoneMap} (h : ZoneMap.build c stripeSize = .ok z) :
    Built c stripeSize .zoneMap (.zoneMap z)
  | perStripeBloom {probability : Float} {p : PerStripeBloom}
    (h : PerStripeBloom.build c stripeSize probability = .ok p) :
    Built c stripeSize (.perStripeBloom probability) (.perStripeBloom p)
  | perValueBitmap {p : PerValueBitmap} (h : PerValueBitmap.build c stripeSize = .ok p) :
    Built c stripeSize .perValueBitmap (.perValueBitmap p)

variable {c : Column} {stripeSize : Nat} {config : IndexConfig} {index : Index}

theorem built_of_build (h : config.build c stripeSize = .ok index) :
    Built c stripeSize config index := by
  cases config with
  | zoneMap =>
    obtain ⟨z, hz, hindex⟩ := except_bind_eq_ok.1 h
    obtain rfl := Except.ok.inj hindex
    exact .zoneMap hz
  | perStripeBloom probability =>
    obtain ⟨p, hp, hindex⟩ := except_bind_eq_ok.1 h
    obtain rfl := Except.ok.inj hindex
    exact .perStripeBloom hp
  | perValueBitmap =>
    obtain ⟨p, hp, hindex⟩ := except_bind_eq_ok.1 h
    obtain rfl := Except.ok.inj hindex
    exact .perValueBitmap hp

namespace Built

/-- No index can be built with stripes of no rows. -/
theorem stripeSize_pos (h : Built c stripeSize config index) : 0 < stripeSize := by
  cases h with
  | zoneMap h => exact (ZoneMap.build_eq_ok_iff.1 h).1
  | perStripeBloom h => exact (PerStripeBloom.build_eq_ok_iff.1 h).1
  | perValueBitmap h => exact PerValueBitmap.stripeSize_pos_of_build h

/-- The answer of an index for `n` stripes has one bit for each of them. -/
theorem qualifyingStripes_eq (h : Built c stripeSize config index) (value : Int64) (n : Nat) :
    StripeIndex.qualifyingStripes index value n
      = Bitmap.ofFn n fun id => StripeIndex.stripeContains index id value := by
  cases h with
  | zoneMap h => rfl
  | perStripeBloom h => rfl
  | perValueBitmap h => exact (PerValueBitmap.records_of_build h).stripesOf_eq value n

/-- An index names the stripes that hold a value, unless the value is null. -/
theorem stripeContains_of_ne_null (h : Built c stripeSize config index) {id : Nat}
    {value : Int64} (hvalue : c.stripeContains stripeSize id value = true)
    (hne : value ≠ Column.nullValue) :
    StripeIndex.stripeContains index id value = true := by
  cases h with
  | zoneMap h => exact ZoneMap.covers_of_build h hvalue hne
  | perStripeBloom h => exact PerStripeBloom.mayContain_of_build h hvalue
  | perValueBitmap h => exact (PerValueBitmap.records_of_build h).holds_iff.2 hvalue

/-- The index with a bitmap for every value names no other stripes. -/
theorem stripeContains_eq (h : Built c stripeSize .perValueBitmap index) (id : Nat)
    (value : Int64) :
    StripeIndex.stripeContains index id value = c.stripeContains stripeSize id value := by
  cases h with
  | perValueBitmap h =>
    exact Bool.eq_iff_iff.2 (PerValueBitmap.records_of_build h).holds_iff

end Built

end Index

end StripePruning
