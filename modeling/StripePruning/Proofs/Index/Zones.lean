import Mathlib.Order.Bounds.Defs
import StripePruning.Index.ZoneMap
import StripePruning.Proofs.Bitmap.Bits
import StripePruning.Proofs.Column.Rows
import StripePruning.Proofs.Steps

/-!
# Zones take in their values

The zone of a stripe is found by one walk over its values, null apart, that
widens a pair of bounds.

* `join` is the least zone around two zones, and `foldl_join_extremes` says what a
  walk over some zones finds.  A walk over values is one over zones of one value each.
* `zoneOf_bounds` says that the zone takes in every value.  For the zone map of a
  column follows `covers_of_build`: it denies no value to a stripe that holds it,
  unless the value is null.
* `zoneOf_extremes` says that the zone goes no further, since its ends are values.
  For the zone map of a column follows `exists_covers_iff`: a stripe is named for
  some value of an interval if and only if the interval meets the zone.
* `exists_zone_iff` says which stripes have a zone, and `build_between` which
  values a stripe is named for: those between two values that it holds.
-/

namespace StripePruning

/-- The greater of two 64-bit integers is the least one that is not below them. -/
instance int64LawfulOrderMax : Std.LawfulOrderMax Int64 where
  max_eq_or a b := by
    show (if a ≤ b then b else a) = a ∨ (if a ≤ b then b else a) = b
    split
    · exact Or.inr rfl
    · exact Or.inl rfl
  max_le_iff a b c := by
    show (if a ≤ b then b else a) ≤ c ↔ a ≤ c ∧ b ≤ c
    split
    · exact ⟨fun h => ⟨Int64.le_trans ‹_› h, h⟩, And.right⟩
    · have hle : b ≤ a := (Int64.le_total a b).resolve_left ‹_›
      exact ⟨fun h => ⟨h, Int64.le_trans hle h⟩, And.left⟩

namespace ZoneMap

/-! ## Joining zones -/

/-- The zone without values.  Its ends are the wrong way round. -/
def emptyZone : Int64 × Int64 := (Int64.maxValue, Int64.minValue)

/-- The least zone that takes in two zones. -/
def join (a b : Int64 × Int64) : Int64 × Int64 :=
  (min a.1 b.1, max a.2 b.2)

instance : Std.Associative join where
  assoc a b c :=
    have hleast : min (min a.1 b.1) c.1 = min a.1 (min b.1 c.1) := Std.Associative.assoc _ _ _
    have hgreatest : max (max a.2 b.2) c.2 = max a.2 (max b.2 c.2) := Std.Associative.assoc _ _ _
    Prod.ext hleast hgreatest

theorem join_emptyZone (zone : Int64 × Int64) : join zone emptyZone = zone := by
  apply Prod.ext
  · exact Int64.le_antisymm Std.min_le_left
      (Std.le_min_iff.2 ⟨Int64.le_refl zone.1, Int64.le_maxValue zone.1⟩)
  · exact Int64.le_antisymm (Std.max_le_iff.2 ⟨Int64.le_refl zone.2, Int64.minValue_le zone.2⟩)
      Std.left_le_max

theorem emptyZone_join (zone : Int64 × Int64) : join emptyZone zone = zone := by
  apply Prod.ext
  · exact Int64.le_antisymm Std.min_le_right
      (Std.le_min_iff.2 ⟨Int64.le_maxValue zone.1, Int64.le_refl zone.1⟩)
  · exact Int64.le_antisymm (Std.max_le_iff.2 ⟨Int64.minValue_le zone.2, Int64.le_refl zone.2⟩)
      Std.right_le_max

/-- A walk that starts with a zone joins this zone and what the others give. -/
theorem foldl_join_eq (zones : List (Int64 × Int64)) (start : Int64 × Int64) :
    zones.foldl join start = join start (zones.foldl join emptyZone) := by
  rw [← join_emptyZone start, List.foldl_assoc, join_emptyZone]

/-- A walk over some zones leaves nothing out and takes in each of them. -/
theorem foldl_join_bounds (zones : List (Int64 × Int64)) (start : Int64 × Int64) :
    ((zones.foldl join start).1 ≤ start.1 ∧ start.2 ≤ (zones.foldl join start).2) ∧
      ∀ zone, zone ∈ zones →
        (zones.foldl join start).1 ≤ zone.1 ∧ zone.2 ≤ (zones.foldl join start).2 := by
  induction zones generalizing start with
  | nil => exact ⟨⟨Int64.le_refl _, Int64.le_refl _⟩, by simp⟩
  | cons first rest ih =>
    have hstart : (join start first).1 ≤ start.1 ∧ start.2 ≤ (join start first).2 :=
      ⟨Std.min_le_left, Std.left_le_max⟩
    have hfirst : (join start first).1 ≤ first.1 ∧ first.2 ≤ (join start first).2 :=
      ⟨Std.min_le_right, Std.right_le_max⟩
    obtain ⟨hrest, hmem⟩ := ih (join start first)
    rw [List.foldl_cons]
    refine ⟨⟨Int64.le_trans hrest.1 hstart.1, Int64.le_trans hstart.2 hrest.2⟩, ?_⟩
    intro zone hzone
    rcases List.mem_cons.1 hzone with rfl | hzone
    · exact ⟨Int64.le_trans hrest.1 hfirst.1, Int64.le_trans hfirst.2 hrest.2⟩
    · exact hmem zone hzone

/-- The ends of a walk are those it started with or ends of zones that it met. -/
theorem foldl_join_mem (zones : List (Int64 × Int64)) (start : Int64 × Int64) :
    ((zones.foldl join start).1 = start.1 ∨ (zones.foldl join start).1 ∈ zones.map (·.1)) ∧
      ((zones.foldl join start).2 = start.2 ∨ (zones.foldl join start).2 ∈ zones.map (·.2)) := by
  induction zones generalizing start with
  | nil => exact ⟨Or.inl rfl, Or.inl rfl⟩
  | cons first rest ih =>
    have hleast : (join start first).1 = start.1 ∨ (join start first).1 = first.1 :=
      Std.min_eq_or
    have hgreatest : (join start first).2 = start.2 ∨ (join start first).2 = first.2 :=
      Std.max_eq_or
    obtain ⟨hrestLeast, hrestGreatest⟩ := ih (join start first)
    rw [List.foldl_cons, List.map_cons, List.map_cons, List.mem_cons, List.mem_cons]
    constructor
    · rcases hrestLeast with hrest | hrest
      · rw [hrest]
        exact hleast.imp_right Or.inl
      · exact Or.inr (Or.inr hrest)
    · rcases hrestGreatest with hrest | hrest
      · rw [hrest]
        exact hgreatest.imp_right Or.inl
      · exact Or.inr (Or.inr hrest)

/-- Some zones joined go from the least of their lower ends to the greatest of their upper ends,
if there are any. -/
theorem foldl_join_extremes {zones : List (Int64 × Int64)} (hne : zones ≠ []) :
    IsLeast {v | v ∈ zones.map (·.1)} (zones.foldl join emptyZone).1 ∧
      IsGreatest {v | v ∈ zones.map (·.2)} (zones.foldl join emptyZone).2 := by
  obtain ⟨-, hbounds⟩ := foldl_join_bounds zones emptyZone
  obtain ⟨hleast, hgreatest⟩ := foldl_join_mem zones emptyZone
  obtain ⟨zone, hzone⟩ := List.exists_mem_of_ne_nil zones hne
  refine ⟨⟨?_, fun v hv => ?_⟩, ⟨?_, fun v hv => ?_⟩⟩
  -- An end that the walk started with is the end of any zone, as nothing lies beyond it.
  · rcases hleast with hstart | hmem
    · have heq : zone.1 = (zones.foldl join emptyZone).1 := by
        refine Int64.le_antisymm ?_ (hbounds zone hzone).1
        rw [hstart]
        exact Int64.le_maxValue zone.1
      exact heq ▸ List.mem_map_of_mem hzone
    · exact hmem
  · obtain ⟨other, hother, rfl⟩ := List.mem_map.1 hv
    exact (hbounds other hother).1
  · rcases hgreatest with hstart | hmem
    · have heq : zone.2 = (zones.foldl join emptyZone).2 := by
        refine Int64.le_antisymm (hbounds zone hzone).2 ?_
        rw [hstart]
        exact Int64.minValue_le zone.2
      exact heq ▸ List.mem_map_of_mem hzone
    · exact hmem
  · obtain ⟨other, hother, rfl⟩ := List.mem_map.1 hv
    exact (hbounds other hother).2

/-! ## One zone -/

/-- The zone of some values joins the values, null apart, each as a zone of its own. -/
theorem zoneOf_eq_foldl_join (values : List Int64) :
    zoneOf values
      = ((values.filter (· ≠ Column.nullValue)).map fun v => (v, v)).foldl join emptyZone := by
  rw [List.foldl_map]
  rfl

theorem zoneOf_nil : zoneOf [] = emptyZone := rfl

/-- The zone of two lists of values is the zones of both, joined. -/
theorem zoneOf_append (xs ys : List Int64) :
    zoneOf (xs ++ ys) = join (zoneOf xs) (zoneOf ys) := by
  simp only [zoneOf_eq_foldl_join, List.filter_append, List.map_append, List.foldl_append]
  exact foldl_join_eq _ _

/-- A zone takes in every value that is not null. -/
theorem zoneOf_bounds {values : List Int64} {value : Int64} (hvalue : value ∈ values)
    (hne : value ≠ Column.nullValue) :
    (zoneOf values).1 ≤ value ∧ value ≤ (zoneOf values).2 := by
  rw [zoneOf_eq_foldl_join]
  refine (foldl_join_bounds _ _).2 (value, value) (List.mem_map_of_mem ?_)
  rw [List.mem_filter, decide_eq_true_eq]
  exact ⟨hvalue, hne⟩

/-- The zone of some values goes from the least to the greatest of them, null apart,
if there are any. -/
theorem zoneOf_extremes {values : List Int64} {value : Int64} (hvalue : value ∈ values)
    (hne : value ≠ Column.nullValue) :
    IsLeast {v | v ∈ values ∧ v ≠ Column.nullValue} (zoneOf values).1 ∧
      IsGreatest {v | v ∈ values ∧ v ≠ Column.nullValue} (zoneOf values).2 := by
  have hmem : value ∈ values.filter (· ≠ Column.nullValue) := by
    rw [List.mem_filter, decide_eq_true_eq]
    exact ⟨hvalue, hne⟩
  have hextremes := foldl_join_extremes
    (List.ne_nil_of_mem (List.mem_map_of_mem (f := fun v => (v, v)) hmem))
  rw [← zoneOf_eq_foldl_join] at hextremes
  simpa [Function.comp_def] using hextremes

/-- Without values, null apart, nothing lies in the zone. -/
theorem exists_of_mem_zoneOf {values : List Int64} {value : Int64}
    (hlower : (zoneOf values).1 ≤ value) (hupper : value ≤ (zoneOf values).2) :
    ∃ v, v ∈ values ∧ v ≠ Column.nullValue := by
  cases hfilter : values.filter (· ≠ Column.nullValue) with
  | nil =>
    rw [zoneOf, hfilter] at hlower hupper
    exact absurd (Int64.le_trans hlower hupper) (by decide)
  | cons v rest =>
    have hv : v ∈ values.filter (· ≠ Column.nullValue) := hfilter ▸ List.mem_cons_self
    rw [List.mem_filter, decide_eq_true_eq] at hv
    exact ⟨v, hv⟩

/-- An interval meets a zone if the greater of the two lower ends is not above the
lesser of the two upper ends. -/
theorem exists_between_iff {first last least greatest : Int64} :
    (∃ value, (first ≤ value ∧ value ≤ last) ∧ least ≤ value ∧ value ≤ greatest) ↔
      max first least ≤ min last greatest := by
  constructor
  · rintro ⟨value, ⟨hfirst, hlast⟩, hleast, hgreatest⟩
    exact Int64.le_trans (Std.max_le_iff.2 ⟨hfirst, hleast⟩)
      (Std.le_min_iff.2 ⟨hlast, hgreatest⟩)
  · intro h
    obtain ⟨hlast, hgreatest⟩ := Std.le_min_iff.1 h
    exact ⟨max first least, ⟨Std.left_le_max, hlast⟩, Std.right_le_max, hgreatest⟩

/-! ## The zones of a column -/

variable {c : Column} {stripeSize : Nat} {z : ZoneMap}

/-- The zones of some chunks. -/
def ofChunks (pieces : List (List Int64)) : ZoneMap :=
  let zones := pieces.map zoneOf
  { minimums := (zones.map (·.1)).toArray, maximums := (zones.map (·.2)).toArray }

/-- A zone map can be built for every stripe size but zero. -/
theorem build_eq_ok_iff :
    build c stripeSize = .ok z ↔
      0 < stripeSize ∧ z = ofChunks (chunks stripeSize c.values.toList) := by
  rw [build, checkStripeSize_bind_eq_ok]
  simp only [pure, Except.pure, Except.ok.injEq, ofChunks, eq_comm]

theorem zone?_ofChunks (pieces : List (List Int64)) (id : Nat) :
    (ofChunks pieces).zone? id = pieces[id]?.map zoneOf := by
  rw [zone?, ofChunks]
  simp only [List.getElem?_toArray, List.getElem?_map]
  cases pieces[id]? <;> rfl

/-- A stripe is named for a value if the value lies in the zone of its chunk. -/
theorem covers_ofChunks_iff {pieces : List (List Int64)} {id : Nat} {value : Int64} :
    (ofChunks pieces).covers id value = true ↔
      ∃ chunk, pieces[id]? = some chunk ∧ (zoneOf chunk).1 ≤ value ∧ value ≤ (zoneOf chunk).2 := by
  rw [covers, zone?_ofChunks]
  cases pieces[id]? <;> simp

/-- The zone map of a column names the stripes of every value but null. -/
theorem covers_of_build (h : build c stripeSize = .ok z) {id : Nat} {value : Int64}
    (hvalue : c.stripeContains stripeSize id value = true) (hne : value ≠ Column.nullValue) :
    z.covers id value = true := by
  obtain ⟨hsize, rfl⟩ := build_eq_ok_iff.1 h
  obtain ⟨chunk, hchunk, hmem⟩ := (Column.exists_chunk_iff c hsize).2 hvalue
  exact covers_ofChunks_iff.2 ⟨chunk, hchunk, zoneOf_bounds hmem hne⟩

/-- The zone map of a column names a stripe for a value if and only if the value lies between
two values of the stripe, null apart. -/
theorem covers_iff (h : build c stripeSize = .ok z) {id : Nat} {value : Int64} :
    z.covers id value = true ↔
      ∃ lower upper, lower ∈ c.present stripeSize id ∧ upper ∈ c.present stripeSize id ∧
        lower ≤ value ∧ value ≤ upper := by
  obtain ⟨hsize, rfl⟩ := build_eq_ok_iff.1 h
  constructor
  · intro hcovers
    obtain ⟨chunk, hchunk, hlower, hupper⟩ := covers_ofChunks_iff.1 hcovers
    obtain ⟨v, hv, hne⟩ := exists_of_mem_zoneOf hlower hupper
    obtain ⟨hleast, hgreatest⟩ := zoneOf_extremes hv hne
    rw [← Column.present_of_chunk hsize hchunk] at hleast hgreatest
    exact ⟨_, _, hleast.1, hgreatest.1, hlower, hupper⟩
  · rintro ⟨lower, upper, hlower, hupper, hle, hge⟩
    obtain ⟨chunk, hchunk, hmem⟩ := (Column.exists_chunk_iff c hsize).2
      ((Column.stripeContains_iff hsize).2 hlower.2)
    rw [Column.present_of_chunk hsize hchunk] at hupper
    have hleast := (zoneOf_bounds hmem hlower.1).1
    have hgreatest := (zoneOf_bounds hupper.1 hupper.2).2
    exact covers_ofChunks_iff.2
      ⟨chunk, hchunk, Int64.le_trans hleast hle, Int64.le_trans hge hgreatest⟩

/-- The zone map of a column names a stripe for some value of an interval if and only
if a row of the stripe is not null and the interval meets the values from the least
to the greatest such row. -/
theorem exists_covers_iff (h : build c stripeSize = .ok z) {id : Nat} {first last : Int64} :
    (∃ value, (first ≤ value ∧ value ≤ last) ∧ z.covers id value = true) ↔
      ∃ least greatest, IsLeast (c.present stripeSize id) least ∧
        IsGreatest (c.present stripeSize id) greatest ∧ max first least ≤ min last greatest := by
  obtain ⟨hsize, rfl⟩ := build_eq_ok_iff.1 h
  constructor
  · rintro ⟨value, hinterval, hcovers⟩
    obtain ⟨chunk, hchunk, hzone⟩ := covers_ofChunks_iff.1 hcovers
    obtain ⟨v, hv, hne⟩ := exists_of_mem_zoneOf hzone.1 hzone.2
    obtain ⟨hleast, hgreatest⟩ := zoneOf_extremes hv hne
    rw [← Column.present_of_chunk hsize hchunk] at hleast hgreatest
    exact ⟨_, _, hleast, hgreatest, exists_between_iff.1 ⟨value, hinterval, hzone⟩⟩
  · rintro ⟨least, greatest, hleast, hgreatest, hmeet⟩
    obtain ⟨chunk, hchunk, hmem⟩ := (Column.exists_chunk_iff c hsize).2
      ((Column.stripeContains_iff hsize).2 hleast.1.2)
    obtain ⟨hzoneLeast, hzoneGreatest⟩ := zoneOf_extremes hmem hleast.1.1
    rw [← Column.present_of_chunk hsize hchunk] at hzoneLeast hzoneGreatest
    -- A set has one least and one greatest value, so the ends are those of the zone.
    obtain rfl : least = (zoneOf chunk).1 :=
      Int64.le_antisymm (hleast.2 hzoneLeast.1) (hzoneLeast.2 hleast.1)
    obtain rfl : greatest = (zoneOf chunk).2 :=
      Int64.le_antisymm (hzoneGreatest.2 hgreatest.1) (hgreatest.2 hzoneGreatest.1)
    obtain ⟨value, hinterval, hzone⟩ := exists_between_iff.2 hmeet
    exact ⟨value, hinterval, covers_ofChunks_iff.2 ⟨chunk, hchunk, hzone⟩⟩

/-- There are as many zones as stripes. -/
theorem numStripes_of_build (h : build c stripeSize = .ok z) :
    z.numStripes = c.numStripes stripeSize := by
  obtain ⟨hsize, rfl⟩ := build_eq_ok_iff.1 h
  rw [← c.length_chunks hsize]
  simp [numStripes, ofChunks]

/-- The stripes of a column have a zone, and no others. -/
theorem exists_zone_iff (h : build c stripeSize = .ok z) {id : Nat} :
    (∃ zone, z.zone? id = some zone) ↔ id < c.numStripes stripeSize := by
  obtain ⟨hsize, rfl⟩ := build_eq_ok_iff.1 h
  rw [← Option.isSome_iff_exists, zone?_ofChunks, Option.isSome_map, ← c.length_chunks hsize]
  simp

/-- A value between two values of a stripe, null apart, is not null. -/
theorem ne_nullValue_of_present_le {id : Nat} {lower value : Int64}
    (hlower : lower ∈ c.present stripeSize id) (hle : lower ≤ value) :
    value ≠ Column.nullValue := by
  rintro rfl
  exact hlower.1 (Int64.le_antisymm hle (Int64.minValue_le lower))

/-- The zone map of a column can be built, and it has one zone for each stripe.  It names a
stripe for a value if and only if there is such a stripe and the value lies between two values
that it holds, null apart.  So a stripe that holds nothing but null is named for no value, null
is named for no stripe, every other value is named for all stripes that hold it, and no stripe
after the last one is named. -/
theorem build_between (c : Column) {stripeSize : Nat} (hsize : 0 < stripeSize) :
    ∃ z, build c stripeSize = .ok z ∧
      z.numStripes = c.numStripes stripeSize ∧
      (∀ id, (∃ zone, z.zone? id = some zone) ↔ id < c.numStripes stripeSize) ∧
      (∀ id value, StripeIndex.stripeContains z id value = true ↔
        id < c.numStripes stripeSize ∧ ∃ lower upper, lower ∈ c.present stripeSize id ∧
          upper ∈ c.present stripeSize id ∧ lower ≤ value ∧ value ≤ upper) ∧
      (∀ id, (∀ value, c.stripeContains stripeSize id value = true → value = Column.nullValue) →
        ∀ value, StripeIndex.stripeContains z id value = false) ∧
      (∀ id, StripeIndex.stripeContains z id Column.nullValue = false) ∧
      (∀ id value, c.stripeContains stripeSize id value = true → value ≠ Column.nullValue →
        StripeIndex.stripeContains z id value = true) ∧
      ∀ id value, c.numStripes stripeSize ≤ id →
        StripeIndex.stripeContains z id value = false := by
  obtain ⟨z, hbuild⟩ : ∃ z, build c stripeSize = .ok z := ⟨_, build_eq_ok_iff.2 ⟨hsize, rfl⟩⟩
  have hcovers : ∀ id value, z.covers id value = true ↔
      id < c.numStripes stripeSize ∧ ∃ lower upper, lower ∈ c.present stripeSize id ∧
        upper ∈ c.present stripeSize id ∧ lower ≤ value ∧ value ≤ upper := by
    intro id value
    rw [covers_iff hbuild]
    refine ⟨fun hbetween => ⟨?_, hbetween⟩, And.right⟩
    obtain ⟨lower, -, hlower, -⟩ := hbetween
    exact Column.lt_numStripes_of_stripeContains hsize
      ((Column.stripeContains_iff hsize).2 hlower.2)
  refine ⟨z, hbuild, numStripes_of_build hbuild, fun id => exists_zone_iff hbuild, hcovers,
    ?_, ?_, ?_, ?_⟩
  · intro id hnull value
    rw [← Bool.not_eq_true]
    intro hnamed
    obtain ⟨-, lower, -, hlower, -⟩ := (hcovers id value).1 hnamed
    exact hlower.1 (hnull lower ((Column.stripeContains_iff hsize).2 hlower.2))
  · intro id
    rw [← Bool.not_eq_true]
    intro hnamed
    obtain ⟨-, lower, -, hlower, -, hle, -⟩ := (hcovers id _).1 hnamed
    exact ne_nullValue_of_present_le hlower hle rfl
  · exact fun id value hheld hne => covers_of_build hbuild hheld hne
  · intro id value hid
    rw [← Bool.not_eq_true]
    intro hnamed
    exact Nat.not_lt_of_le hid ((hcovers id value).1 hnamed).1

/-- Three stripes of two rows, the last one with one row only.  The first holds the greatest
integer and null, the second nothing but null, and the third the least integer that is not
null. -/
theorem build_between_extremes :
    0 < 2 ∧ ∃ z, build (Column.ofValues "c" #[Int64.maxValue, Column.nullValue,
        Column.nullValue, Column.nullValue, Column.nullValue + 1]) 2 = .ok z ∧
      z.numStripes = 3 ∧
      StripeIndex.stripeContains z 0 Int64.maxValue = true ∧
      StripeIndex.stripeContains z 0 Column.nullValue = false ∧
      (∀ value, StripeIndex.stripeContains z 1 value = false) ∧
      StripeIndex.stripeContains z 2 (Column.nullValue + 1) = true ∧
      StripeIndex.stripeContains z 3 Int64.maxValue = false := by
  have hsize : 0 < 2 := by decide
  obtain ⟨z, hbuild, hstripes, -, -, hnulls, hnull, hheld, hpast⟩ :=
    build_between (Column.ofValues "c" #[Int64.maxValue, Column.nullValue,
      Column.nullValue, Column.nullValue, Column.nullValue + 1]) hsize
  refine ⟨hsize, z, hbuild, hstripes, ?_, hnull 0, ?_, ?_, ?_⟩
  · exact hheld 0 Int64.maxValue (by decide +kernel) (by decide)
  · refine hnulls 1 fun value hvalue => ?_
    rw [Column.stripeContains_iff_mem] at hvalue
    have hmem : value ∈ [Column.nullValue, Column.nullValue] := hvalue
    simpa using hmem
  · exact hheld 2 (Column.nullValue + 1) (by decide +kernel) (by decide)
  · exact hpast 3 Int64.maxValue (by decide)

end ZoneMap

end StripePruning
