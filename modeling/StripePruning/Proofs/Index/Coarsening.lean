import Mathlib.Algebra.Order.Floor.Div
import Mathlib.Order.Interval.Set.Defs
import StripePruning.Proofs.Index.Exact
import StripePruning.Proofs.Index.Zones

/-!
# Longer stripes

Stripes that are `factor` times as long are the stripes of a column taken together,
`factor` of them at a time.  The last one of both sizes may be shorter.

* `block` are the stripes that make up a longer one.  `numStripes_mul` counts the
  longer stripes, and `stripeContains_mul_iff` says what they hold.
* `zoneOf_take_mul` is the zone of some stripes in a row: their zones joined.
* `Spans` says that a zone goes from the least to the greatest end of the zones of
  some stripes.  `Spans.leave_out` lets stripes of nulls be left out.
* `build_coarsened` compares the indexes over a column for both sizes.
-/

namespace StripePruning

variable {c : Column} {stripeSize factor : Nat}

/-! ## The stripes of a longer stripe -/

/-- The stripes that make up stripe `id` of the stripes that are `factor` times as long. -/
def block (factor id : Nat) : Set Nat :=
  Set.Ico (id * factor) (id * factor + factor)

theorem mem_block_iff (hfactor : 0 < factor) {id part : Nat} :
    part ∈ block factor id ↔ part / factor = id := by
  rw [block, Set.mem_Ico, Nat.div_eq_iff hfactor]
  omega

namespace Column

/-- The number of longer stripes is that of the stripes divided by the factor, rounded up. -/
theorem numStripes_mul (c : Column) (hsize : 0 < stripeSize) (hfactor : 0 < factor) :
    c.numStripes (factor * stripeSize) = c.numStripes stripeSize ⌈/⌉ factor := by
  refine eq_of_forall_lt_iff fun id => ?_
  rw [lt_numStripes_iff (Nat.mul_pos hfactor hsize), Nat.mul_comm factor, Nat.mul_assoc,
    ← lt_numStripes_iff hsize, ← Nat.not_le, ← Nat.not_le, ceilDiv_le_iff_le_mul hfactor]

/-- The rows of a longer stripe are those of the stripes that make it up. -/
theorem div_mul_eq_iff (hfactor : 0 < factor) {row id : Nat} :
    row / (factor * stripeSize) = id ↔
      ∃ part, part ∈ block factor id ∧ row / stripeSize = part := by
  rw [Nat.mul_comm, ← Nat.div_div_eq_div_mul, ← mem_block_iff hfactor]
  simp

/-- A longer stripe holds a value if and only if one of the stripes that make it up does. -/
theorem stripeContains_mul_iff (hsize : 0 < stripeSize) (hfactor : 0 < factor) {id : Nat}
    {value : Int64} :
    c.stripeContains (factor * stripeSize) id value = true ↔
      ∃ part, part ∈ block factor id ∧ c.stripeContains stripeSize part value = true := by
  simp only [stripeContains_iff (Nat.mul_pos hfactor hsize), stripeContains_iff hsize,
    div_mul_eq_iff hfactor]
  constructor
  · rintro ⟨row, hrow, part, hpart, hdiv⟩
    exact ⟨part, hpart, row, hrow, hdiv⟩
  · rintro ⟨part, hpart, row, hrow, hdiv⟩
    exact ⟨row, hrow, part, hpart, hdiv⟩

/-- What a stripe holds, null apart, is held by the longer stripe that it is a part of. -/
theorem present_subset_mul (hfactor : 0 < factor) {id part : Nat} (hpart : part ∈ block factor id) :
    c.present stripeSize part ⊆ c.present (factor * stripeSize) id := by
  rintro value ⟨hne, row, hrow, hdiv⟩
  exact ⟨hne, row, hrow, (div_mul_eq_iff hfactor).2 ⟨part, hpart, hdiv⟩⟩

end Column

namespace ZoneMap

variable {fine coarse : ZoneMap}

/-! ## Zones of stripes in a row -/

/-- The zone of the rows of some stripes, from stripe `start` on, is the zones of these stripes
joined.  There may be fewer stripes than `count`. -/
theorem zoneOf_take_mul (hsize : 0 < stripeSize) (values : List Int64) (start count : Nat) :
    zoneOf ((values.drop (stripeSize * start)).take (count * stripeSize))
      = ((List.range' start count).filterMap
          (ofChunks (chunks stripeSize values)).zone?).foldl join emptyZone := by
  induction count generalizing start with
  | zero => simp [zoneOf_nil]
  | succ count ih =>
    have hnext : stripeSize * start + stripeSize = stripeSize * (start + 1) := by
      rw [Nat.mul_add, Nat.mul_one]
    have hzone := zone?_ofChunks (chunks stripeSize values) start
    rw [getElem?_chunks hsize] at hzone
    rw [Nat.add_mul, Nat.one_mul, Nat.add_comm, List.take_add, List.drop_drop, hnext,
      zoneOf_append, ih, List.range'_succ]
    by_cases hlt : stripeSize * start < values.length
    · rw [if_pos hlt, Option.map_some] at hzone
      rw [List.filterMap_cons_some hzone, List.foldl_cons, emptyZone_join, ← foldl_join_eq]
    -- Past the last row there is neither a value nor a stripe to be joined.
    · rw [if_neg hlt, Option.map_none] at hzone
      rw [List.filterMap_cons_none hzone, List.drop_of_length_le (Nat.le_of_not_lt hlt),
        List.take_nil, zoneOf_nil, emptyZone_join]

/-- The zone of a longer stripe is the zones of the stripes that make it up, joined. -/
theorem zone?_mul (hfine : build c stripeSize = .ok fine)
    (hcoarse : build c (factor * stripeSize) = .ok coarse) {id : Nat}
    (hid : id < c.numStripes (factor * stripeSize)) :
    coarse.zone? id = some (((List.range' (id * factor) factor).filterMap fine.zone?).foldl
      join emptyZone) := by
  obtain ⟨hsize, rfl⟩ := build_eq_ok_iff.1 hfine
  obtain ⟨hsizes, rfl⟩ := build_eq_ok_iff.1 hcoarse
  have hfirst : factor * stripeSize * id = stripeSize * (id * factor) := by
    rw [Nat.mul_comm factor, Nat.mul_assoc, Nat.mul_comm factor]
  have hrows : factor * stripeSize * id < c.values.toList.length :=
    (Column.lt_numStripes_iff hsizes).1 hid
  rw [zone?_ofChunks, getElem?_chunks hsizes, if_pos hrows, Option.map_some, hfirst,
    zoneOf_take_mul hsize]

/-! ## The ends of zones -/

/-- A zone goes from the least lower end to the greatest upper end of the zones of some
stripes. -/
structure Spans (z : ZoneMap) (ids : Set Nat) (zone : Int64 × Int64) : Prop where
  least : IsLeast {v | ∃ id, id ∈ ids ∧ ∃ part, z.zone? id = some part ∧ part.1 = v} zone.1
  greatest : IsGreatest {v | ∃ id, id ∈ ids ∧ ∃ part, z.zone? id = some part ∧ part.2 = v} zone.2

/-- Zones of stripes in a row, joined, span the stripes if there are any. -/
theorem spans_foldl_join {z : ZoneMap} {start count : Nat}
    (hne : ∃ id, id ∈ Set.Ico start (start + count) ∧ ∃ part, z.zone? id = some part) :
    z.Spans (Set.Ico start (start + count))
      (((List.range' start count).filterMap z.zone?).foldl join emptyZone) := by
  have hmem : ∀ part, part ∈ (List.range' start count).filterMap z.zone? ↔
      ∃ id, id ∈ Set.Ico start (start + count) ∧ z.zone? id = some part := by
    intro part
    rw [List.mem_filterMap]
    simp only [List.mem_range'_1, Set.mem_Ico]
  obtain ⟨id, hid, part, hpart⟩ := hne
  obtain ⟨hleast, hgreatest⟩ :=
    foldl_join_extremes (List.ne_nil_of_mem ((hmem part).2 ⟨id, hid, hpart⟩))
  have hends : ∀ (side : Int64 × Int64 → Int64),
      {v | v ∈ ((List.range' start count).filterMap z.zone?).map side}
        = {v | ∃ id, id ∈ Set.Ico start (start + count) ∧
            ∃ part, z.zone? id = some part ∧ side part = v} := by
    intro side
    ext v
    rw [Set.mem_ofPred_eq, Set.mem_ofPred_eq, List.mem_map]
    simp only [hmem]
    constructor
    · rintro ⟨part, ⟨id, hid, hpart⟩, rfl⟩
      exact ⟨id, hid, part, hpart, rfl⟩
    · rintro ⟨id, hid, part, hpart, rfl⟩
      exact ⟨part, ⟨id, hid, hpart⟩, rfl⟩
  exact ⟨hends (·.1) ▸ hleast, hends (·.2) ▸ hgreatest⟩

/-- A stripe that holds nothing but null has the zone without values. -/
theorem zone?_of_present_empty (h : build c stripeSize = .ok fine) {id : Nat}
    {zone : Int64 × Int64} (hzone : fine.zone? id = some zone)
    (hnulls : c.present stripeSize id = ∅) : zone = emptyZone := by
  obtain ⟨hsize, rfl⟩ := build_eq_ok_iff.1 h
  rw [zone?_ofChunks] at hzone
  obtain ⟨chunk, hchunk, rfl⟩ := Option.map_eq_some_iff.1 hzone
  have hnone : chunk.filter (· ≠ Column.nullValue) = [] := by
    rw [List.filter_eq_nil_iff]
    intro value hvalue hne
    have hpresent : value ∈ c.present stripeSize id := by
      rw [Column.present_of_chunk hsize hchunk]
      exact ⟨hvalue, of_decide_eq_true hne⟩
    rw [hnulls] at hpresent
    exact hpresent
  rw [zoneOf, hnone]
  rfl

/-- Stripes of nulls may be left out of those that a zone spans, as long as some stripe is
left. -/
theorem Spans.leave_out (h : build c stripeSize = .ok fine) {ids rest : Set Nat}
    {zone : Int64 × Int64} (hspans : fine.Spans ids zone) (hsub : rest ⊆ ids)
    (hnulls : ∀ id, id ∈ ids → id ∉ rest → c.present stripeSize id = ∅)
    (hrest : ∃ id, id ∈ rest ∧ id < c.numStripes stripeSize) : fine.Spans rest zone := by
  obtain ⟨kept, hkept, hlt⟩ := hrest
  obtain ⟨keptZone, hkeptZone⟩ := (exists_zone_iff h).2 hlt
  refine ⟨⟨?_, ?_⟩, ⟨?_, ?_⟩⟩
  -- The least end of a stripe of nulls is not below any other, so a stripe that is left has it too.
  · obtain ⟨id, hid, part, hpart, hend⟩ := hspans.least.1
    by_cases hmem : id ∈ rest
    · exact ⟨id, hmem, part, hpart, hend⟩
    · refine ⟨kept, hkept, keptZone, hkeptZone, Int64.le_antisymm ?_ ?_⟩
      · rw [← hend, zone?_of_present_empty h hpart (hnulls id hid hmem)]
        exact Int64.le_maxValue keptZone.1
      · exact hspans.least.2 ⟨kept, hsub hkept, keptZone, hkeptZone, rfl⟩
  · rintro v ⟨id, hid, hpart⟩
    exact hspans.least.2 ⟨id, hsub hid, hpart⟩
  · obtain ⟨id, hid, part, hpart, hend⟩ := hspans.greatest.1
    by_cases hmem : id ∈ rest
    · exact ⟨id, hmem, part, hpart, hend⟩
    · refine ⟨kept, hkept, keptZone, hkeptZone, Int64.le_antisymm ?_ ?_⟩
      · exact hspans.greatest.2 ⟨kept, hsub hkept, keptZone, hkeptZone, rfl⟩
      · rw [← hend, zone?_of_present_empty h hpart (hnulls id hid hmem)]
        exact Int64.minValue_le keptZone.2
  · rintro v ⟨id, hid, hpart⟩
    exact hspans.greatest.2 ⟨id, hsub hid, hpart⟩

/-- The zone of a longer stripe spans the stripes that make it up. -/
theorem exists_spans_block (hfactor : 0 < factor) (hfine : build c stripeSize = .ok fine)
    (hcoarse : build c (factor * stripeSize) = .ok coarse) {id : Nat}
    (hid : id < c.numStripes (factor * stripeSize)) :
    ∃ zone, coarse.zone? id = some zone ∧ fine.Spans (block factor id) zone := by
  refine ⟨_, zone?_mul hfine hcoarse hid, spans_foldl_join ⟨id * factor, ?_, ?_⟩⟩
  · exact Set.mem_Ico.2 ⟨Nat.le_refl _, by omega⟩
  · obtain ⟨hsize, -⟩ := build_eq_ok_iff.1 hfine
    rw [exists_zone_iff hfine, Column.lt_numStripes_iff hsize, Nat.mul_comm id, ← Nat.mul_assoc,
      Nat.mul_comm stripeSize]
    exact (Column.lt_numStripes_iff (Nat.mul_pos hfactor hsize)).1 hid

/-- A longer stripe is named for every value that one of the stripes that make it up is named
for. -/
theorem covers_mul (hfactor : 0 < factor) (hfine : build c stripeSize = .ok fine)
    (hcoarse : build c (factor * stripeSize) = .ok coarse) {id part : Nat}
    (hpart : part ∈ block factor id) {value : Int64} (hnamed : fine.covers part value = true) :
    coarse.covers id value = true := by
  obtain ⟨lower, upper, hlower, hupper, hbetween⟩ := (covers_iff hfine).1 hnamed
  have hsub : c.present stripeSize part ⊆ c.present (factor * stripeSize) id :=
    Column.present_subset_mul hfactor hpart
  exact (covers_iff hcoarse).2 ⟨lower, upper, hsub hlower, hsub hupper, hbetween⟩

end ZoneMap

/-! ## Indexes over both sizes -/

/-- The bit of an existing stripe in the answer of the bitmap index says whether the stripe holds
the value. -/
theorem PerValueBitmap.get_qualifyingStripes {p : PerValueBitmap}
    (h : PerValueBitmap.build c stripeSize = .ok p) {id : Nat} {value : Int64} :
    (StripeIndex.qualifyingStripes p value (c.numStripes stripeSize)).get id = true ↔
      c.stripeContains stripeSize id value = true := by
  rw [(PerValueBitmap.records_of_build h).qualifyingStripes_eq, Bitmap.get_ofFn,
    Bool.and_eq_true, decide_eq_true_eq]
  exact ⟨And.right, fun hheld => ⟨Column.lt_numStripes_of_stripeContains
    (PerValueBitmap.stripeSize_pos_of_build h) hheld, hheld⟩⟩

/-- Indexes over a column for stripes of one size and for stripes that are `factor` times as long
agree.  There are as many longer stripes as blocks of `factor` stripes.  The bitmap index names a
longer stripe if and only if it names one of the stripes that make it up.  The zone map names a
longer stripe if it names one of these, and the zone of the longer stripe goes from the least to
the greatest end of their zones, whether stripes of nulls are counted or not. -/
theorem build_coarsened (c : Column) (hsize : 0 < stripeSize) (hfactor : 0 < factor) :
    c.numStripes (factor * stripeSize) = c.numStripes stripeSize ⌈/⌉ factor ∧
    (∃ fine coarse, PerValueBitmap.build c stripeSize = .ok fine ∧
      PerValueBitmap.build c (factor * stripeSize) = .ok coarse ∧
      (∀ id value, StripeIndex.stripeContains coarse id value = true ↔
        ∃ part, part ∈ block factor id ∧ StripeIndex.stripeContains fine part value = true) ∧
      ∀ id value, (StripeIndex.qualifyingStripes coarse value
          (c.numStripes (factor * stripeSize))).get id = true ↔
        ∃ part, part ∈ block factor id ∧ (StripeIndex.qualifyingStripes fine value
          (c.numStripes stripeSize)).get part = true) ∧
    ∃ fine coarse, ZoneMap.build c stripeSize = .ok fine ∧
      ZoneMap.build c (factor * stripeSize) = .ok coarse ∧
      (∀ id part value, part ∈ block factor id →
        StripeIndex.stripeContains fine part value = true →
        StripeIndex.stripeContains coarse id value = true) ∧
      ∀ id, id < c.numStripes (factor * stripeSize) → ∃ zone, coarse.zone? id = some zone ∧
        fine.Spans (block factor id) zone ∧
        ∀ rest, rest ⊆ block factor id →
          (∀ part, part ∈ block factor id → part ∉ rest → c.present stripeSize part = ∅) →
          (∃ part, part ∈ rest ∧ part < c.numStripes stripeSize) → fine.Spans rest zone := by
  have hsizes : 0 < factor * stripeSize := Nat.mul_pos hfactor hsize
  refine ⟨c.numStripes_mul hsize hfactor, ?_, ?_⟩
  · obtain ⟨fine, hfine, hfineRecords⟩ := PerValueBitmap.build_records c hsize
    obtain ⟨coarse, hcoarse, hcoarseRecords⟩ := PerValueBitmap.build_records c hsizes
    have hfineHolds : ∀ id value, StripeIndex.stripeContains fine id value = true ↔
        c.stripeContains stripeSize id value = true := fun id value => hfineRecords.holds_iff
    have hcoarseHolds : ∀ id value, StripeIndex.stripeContains coarse id value = true ↔
        c.stripeContains (factor * stripeSize) id value = true :=
      fun id value => hcoarseRecords.holds_iff
    refine ⟨fine, coarse, hfine, hcoarse, fun id value => ?_, fun id value => ?_⟩
    · simp only [hcoarseHolds, hfineHolds]
      exact Column.stripeContains_mul_iff hsize hfactor
    · simp only [PerValueBitmap.get_qualifyingStripes hcoarse,
        PerValueBitmap.get_qualifyingStripes hfine]
      exact Column.stripeContains_mul_iff hsize hfactor
  · obtain ⟨fine, hfine⟩ : ∃ fine, ZoneMap.build c stripeSize = .ok fine :=
      ⟨_, ZoneMap.build_eq_ok_iff.2 ⟨hsize, rfl⟩⟩
    obtain ⟨coarse, hcoarse⟩ : ∃ coarse, ZoneMap.build c (factor * stripeSize) = .ok coarse :=
      ⟨_, ZoneMap.build_eq_ok_iff.2 ⟨hsizes, rfl⟩⟩
    refine ⟨fine, coarse, hfine, hcoarse, ?_, ?_⟩
    · exact fun id part value hpart => ZoneMap.covers_mul hfactor hfine hcoarse hpart
    · intro id hid
      obtain ⟨zone, hzone, hspans⟩ := ZoneMap.exists_spans_block hfactor hfine hcoarse hid
      exact ⟨zone, hzone, hspans, fun rest hsub hnulls hrest =>
        hspans.leave_out hfine hsub hnulls hrest⟩

/-- Seven rows with nulls around 9. -/
def sevenRows : Column :=
  Column.ofValues "c" #[4, 5, 6, Column.nullValue, 9, Column.nullValue, 4]

/-- Stripes of one row and of three.  The second longer stripe is made up of a null, 9 and another
null, so that 9 alone gives its zone, and the third has one row only. -/
theorem build_coarsened_nulls :
    (0 < 1 ∧ 0 < 3) ∧ sevenRows.numStripes (3 * 1) = 7 ⌈/⌉ 3 ∧
      (∃ coarse, PerValueBitmap.build sevenRows (3 * 1) = .ok coarse ∧
        StripeIndex.stripeContains coarse 2 4 = true) ∧
      ∃ fine coarse, ZoneMap.build sevenRows 1 = .ok fine ∧
        ZoneMap.build sevenRows (3 * 1) = .ok coarse ∧
        StripeIndex.stripeContains coarse 2 4 = true ∧
        ∃ zone, coarse.zone? 1 = some zone ∧ fine.Spans {4} zone := by
  obtain ⟨hstripes, ⟨bits, longBits, hbits, hlongBits, hnamed, -⟩, zones, longZones, hzones,
    hlongZones, hcovers, hspans⟩ :=
    build_coarsened sevenRows (by decide : 0 < 1) (by decide : 0 < 3)
  have hlast : 6 ∈ block 3 2 := Set.mem_Ico.2 ⟨by decide, by decide⟩
  have hheld : sevenRows.stripeContains 1 6 4 = true := by decide +kernel
  refine ⟨⟨by decide, by decide⟩, hstripes, ⟨longBits, hlongBits, ?_⟩, zones, longZones,
    hzones, hlongZones, ?_, ?_⟩
  · exact (hnamed 2 4).2 ⟨6, hlast, (PerValueBitmap.records_of_build hbits).holds_iff.2 hheld⟩
  · exact hcovers 2 6 4 hlast (ZoneMap.covers_of_build hzones hheld (by decide))
  · obtain ⟨zone, hzone, -, hrest⟩ := hspans 1 (by decide)
    refine ⟨zone, hzone, hrest {4} ?_ ?_ ⟨4, rfl, by decide⟩⟩
    · rintro _ rfl
      exact Set.mem_Ico.2 ⟨by decide, by decide⟩
    · intro part hpart hne
      obtain ⟨hlower, hupper⟩ := Set.mem_Ico.1 hpart
      have hpart : part = 3 ∨ part = 5 := by
        have hnine : part ≠ 4 := hne
        omega
      rw [Set.eq_empty_iff_forall_notMem]
      rintro value ⟨hvalue, hrows⟩
      have hmem := (Column.mem_stripe_iff (by decide : 0 < 1)).2 hrows
      rcases hpart with rfl | rfl <;> exact hvalue (List.mem_singleton.1 hmem)

end StripePruning
