import StripePruning.Bitmap.Portable
import StripePruning.Proofs.Bitmap.Containers
import StripePruning.Proofs.Index.Exact

/-!
# The portable encoding can be read

A reader of portable bitmaps that knows nothing of the encoder gets back the set positions.

* `Reads` says that some bytes stand for a value in front of any other bytes.  There is one rule
  for every way to build a reader (`reads_pure`, `Reads.bind`, `reads_demand_bind`, `reads_times`).
* The parts of an encoding follow in their order: numbers, headers, offsets, and the contents of
  containers, which have two kinds.
* `Reachable.reads_encode` puts the parts together for one bitmap, and `entries?_flatMap` for
  the entries of an index.
-/

namespace StripePruning

namespace ByteReader

variable {α β : Type} {read : ByteReader α} {bytes others : List UInt8} {value : α}

/-! ## Readers -/

/-- Some bytes stand for a value: whatever follows them, a reader takes them and no more. -/
def Reads (read : ByteReader α) (bytes : List UInt8) (value : α) : Prop :=
  ∀ rest, read.run (bytes ++ rest) = some (value, rest)

theorem reads_pure (value : α) : Reads (pure value) [] value :=
  fun _ => rfl

/-- What a reader takes may decide how to read on. -/
theorem Reads.bind {next : α → ByteReader β} {result : β} (h : Reads read bytes value)
    (hnext : Reads (next value) others result) : Reads (read >>= next) (bytes ++ others) result := by
  intro rest
  rw [StateT.run_bind, List.append_assoc, h (others ++ rest)]
  exact hnext rest

/-- The last part of a form. -/
theorem Reads.map (h : Reads read bytes value) (result : α → β) :
    Reads (read >>= fun x => pure (result x)) bytes (result value) := by
  have hbind : Reads (read >>= fun x => pure (result x)) (bytes ++ []) (result value) :=
    h.bind (reads_pure (result value))
  rwa [List.append_nil] at hbind

/-- A condition that holds takes no bytes. -/
theorem reads_demand_bind {condition : Bool} (hcondition : condition = true)
    (h : Reads read bytes value) : Reads (demand condition >>= fun _ => read) bytes value := by
  have hdemand : Reads (demand condition) [] () := by
    intro rest
    rw [hcondition]
    rfl
  exact hdemand.bind h

/-- The last part of a form, if there is a condition on it. -/
theorem Reads.checked (h : Reads read bytes value) {condition : α → Bool} {result : α → β}
    (hcondition : condition value = true) :
    Reads (read >>= fun x => demand (condition x) >>= fun _ => pure (result x)) bytes
      (result value) := by
  have hlast := reads_demand_bind hcondition (reads_pure (result value))
  have hbind : Reads (read >>= fun x => demand (condition x) >>= fun _ => pure (result x))
      (bytes ++ []) (result value) := h.bind hlast
  rwa [List.append_nil] at hbind

/-- Values in a row. -/
theorem reads_times {encode : β → List UInt8} {result : β → α} {list : List β}
    (h : ∀ x, x ∈ list → Reads read (encode x) (result x)) :
    Reads (times read list.length) (list.flatMap encode) (list.map result) := by
  induction list with
  | nil => exact reads_pure []
  | cons first rest ih =>
    have hfirst := h first List.mem_cons_self
    have hrest := ih fun x hx => h x (List.mem_cons_of_mem first hx)
    rw [List.flatMap_cons]
    exact hfirst.bind (hrest.map (result first :: ·))

/-! ## Numbers -/

/-- The number that bytes stand for, the lowest first. -/
def numberOf : List UInt8 → Nat
  | [] => 0
  | low :: rest => low.toNat + 256 * numberOf rest

theorem reads_number (bytes : List UInt8) :
    Reads (number bytes.length) bytes (numberOf bytes) := by
  induction bytes with
  | nil => exact reads_pure 0
  | cons low rest ih =>
    have hlow : Reads byte [low] low.toNat := fun _ => rfl
    exact hlow.bind (ih.map fun high => low.toNat + 256 * high)

theorem reads_shortBytes {n : Nat} (hn : n < 65536) : Reads (number 2) (shortBytes n) n := by
  have hnumber : numberOf (shortBytes n) = n := by
    have hpow : Nat.pow 2 8 = 256 := rfl
    simp only [shortBytes, numberOf, hpow, Nat.toUInt8_eq, UInt8.toNat_ofNat']
    omega
  have hread := reads_number (shortBytes n)
  rwa [hnumber] at hread

theorem reads_longBytes {n : Nat} (hn : n < 4294967296) : Reads (number 4) (longBytes n) n := by
  have hnumber : numberOf (longBytes n) = n := by
    have hpow : Nat.pow 2 8 = 256 ∧ Nat.pow 2 16 = 65536 := ⟨rfl, rfl⟩
    simp only [longBytes, shortBytes, List.cons_append, List.nil_append, numberOf, hpow,
      Nat.toUInt8_eq, UInt8.toNat_ofNat']
    omega
  have hread := reads_number (longBytes n)
  rwa [hnumber] at hread

theorem reads_wordBytes (word : UInt64) : Reads (number 8) (Word.bytes word) word.toNat := by
  have hnumber : numberOf (Word.bytes word) = word.toNat := by
    have hlt := word.toNat_lt
    simp only [Word.bytes, UInt64.ofNat_mul, UInt64.reduceOfNat, List.range_succ, List.range_zero,
      List.nil_append, List.cons_append, List.map_cons, List.map_nil, UInt64.mul_zero,
      UInt64.shiftRight_zero, UInt64.ofNat_one, UInt64.mul_one, UInt64.reduceMul, numberOf,
      UInt64.toNat_toUInt8, UInt64.toNat_shiftRight, UInt64.reduceToNat,
      Nat.shiftRight_eq_div_pow, Nat.reduceMod, Nat.reducePow]
    omega
  have hread := reads_number (Word.bytes word)
  rwa [hnumber] at hread

end ByteReader

open ByteReader

namespace Bitmap

namespace Container

variable {c : Container} {list : List Container}

/-! ## Containers -/

/-- The header entry of a container. -/
theorem Legible.reads_description (h : c.Legible) :
    Reads keyAndCardinality c.description (c.key, c.cardinality) := by
  have hpos := h.cardinality_pos
  have hle := h.cardinality_le
  have hless : c.cardinality - 1 < 65536 := by omega
  have hread : Reads keyAndCardinality c.description (c.key, c.cardinality - 1 + 1) :=
    (reads_shortBytes h.key_lt).bind ((reads_shortBytes hless).map fun n => (c.key, n + 1))
  rwa [Nat.sub_add_cancel hpos] at hread

/-- The contents of a container that lists its positions. -/
theorem Legible.reads_listed (h : c.Legible) :
    Reads (listed c.cardinality) (c.positions.flatMap shortBytes) c.positions := by
  have htimes : Reads (times (number 2) c.positions.length) (c.positions.flatMap shortBytes)
      (c.positions.map id) := reads_times fun p hp => reads_shortBytes (h.position_lt hp)
  rw [List.map_id] at htimes
  rw [h.cardinality_eq]
  exact htimes.checked (decide_eq_true h.ascending)

/-- The contents of a container that holds its words. -/
theorem Legible.reads_packed (h : c.Legible) :
    Reads (packed c.cardinality) (c.words.toList.flatMap Word.bytes) c.positions := by
  have htimes : Reads (times (number 8) c.words.toList.length)
      (c.words.toList.flatMap Word.bytes) (c.words.toList.map UInt64.toNat) :=
    reads_times fun word _ => reads_wordBytes word
  rw [Array.length_toList, h.size_words] at htimes
  have hbits : ((List.range 65536).filter fun p =>
      ((c.words.toList.map UInt64.toNat).getD (p / 64) 0).testBit (p % 64)) = c.positions := by
    rw [h.positions_eq]
    apply List.filter_congr
    intro p _
    have hword : (c.words.toList.map UInt64.toNat).getD (p / 64) 0
        = (c.words.getD (p / wordBits) 0).toNat := by
      rw [Array.getD_eq_getD_getElem?, ← Array.getElem?_toList, List.getD_eq_getElem?_getD,
        List.getElem?_map]
      show _ = (c.words.toList[p / 64]?.getD 0).toNat
      cases c.words.toList[p / 64]? <;> rfl
    rw [Word.test_eq_testBit, hword]
    rfl
  have hlength : decide (((List.range 65536).filter fun p =>
      ((c.words.toList.map UInt64.toNat).getD (p / 64) 0).testBit (p % 64)).length
        = c.cardinality) = true := by
    rw [hbits, h.cardinality_eq]
    exact decide_eq_true rfl
  rw [← hbits]
  exact htimes.checked hlength

/-- The contents of a container, which has few positions or many. -/
theorem Legible.reads_contents (h : c.Legible) :
    Reads (ByteReader.block c.cardinality) c.contents c.positions := by
  by_cases hfew : c.cardinality ≤ 4096
  · have hcontents : c.contents = c.positions.flatMap shortBytes := if_pos hfew
    rw [ByteReader.block, if_pos hfew, hcontents]
    exact h.reads_listed
  · have hcontents : c.contents = c.words.toList.flatMap Word.bytes := if_neg hfew
    rw [ByteReader.block, if_neg hfew, hcontents]
    exact h.reads_packed

theorem contentSize_le (c : Container) : c.contentSize ≤ 8192 := by
  have hlimits : listLimit = 4096 ∧ wordCount = 1024 := ⟨rfl, rfl⟩
  rw [contentSize, hlimits.1, hlimits.2]
  split <;> omega

/-! ## Containers in a row -/

/-- Where containers start that follow each other from a place on. -/
def starts (place : Nat) : List Container → List Nat
  | [] => []
  | c :: rest => place :: starts (place + c.contentSize) rest

/-- The offsets fit four bytes, because there are not too many containers. -/
theorem reads_containerOffsets {place : Nat} (hplace : place + 8192 * list.length < 4294967296) :
    Reads (times (number 4) list.length) (containerOffsets place list) (starts place list) := by
  induction list generalizing place with
  | nil => exact reads_pure []
  | cons c rest ih =>
    have hsize := c.contentSize_le
    rw [List.length_cons] at hplace
    have hfirst : Reads (number 4) (longBytes place) place := reads_longBytes (by omega)
    exact hfirst.bind ((ih (by omega)).map (place :: ·))

/-- Containers that follow each other are where the offsets say. -/
theorem reads_blocks {place : Nat} (h : ∀ c, c ∈ list → c.Legible) :
    Reads (blocks place ((list.map fun c => (c.key, c.cardinality)).zip (starts place list)))
      (list.flatMap contents)
      (list.flatMap fun c => c.positions.map (c.key * 65536 + ·)) := by
  induction list generalizing place with
  | nil => exact reads_pure []
  | cons c rest ih =>
    have hcontents := (h c List.mem_cons_self).reads_contents
    have hrest : ∀ other, other ∈ rest → other.Legible :=
      fun other hother => h other (List.mem_cons_of_mem c hother)
    rw [List.flatMap_cons]
    refine reads_demand_bind (decide_eq_true rfl) (hcontents.bind ?_)
    exact (ih hrest).map (c.positions.map (c.key * 65536 + ·) ++ ·)

end Container

/-! ## One bitmap -/

variable {a b : Bitmap}

/-- The encoding of a bitmap stands for its set positions. -/
theorem WellFormed.reads_encode (h : b.WellFormed) (hlen : b.len ≤ roaringLimit) :
    Reads portable b.encode b.ones := by
  obtain ⟨hcount, hlegible, hkeys, hpositions⟩ := h.containers_hold hlen
  have hmark : Reads (number 4) (longBytes roaringMark) 12346 := reads_longBytes (by decide)
  have hnumber : Reads (number 4) (longBytes b.containers.length) b.containers.length :=
    reads_longBytes (by omega)
  have hheader : Reads (times keyAndCardinality b.containers.length)
      (b.containers.flatMap Container.description)
      (b.containers.map fun c => (c.key, c.cardinality)) :=
    reads_times fun c hc => (hlegible c hc).reads_description
  have hascending : ((b.containers.map fun c => (c.key, c.cardinality)).map (·.1)).Pairwise
      (· < ·) := by
    rw [List.map_map, List.pairwise_map]
    exact hkeys
  have hoffsets : Reads (times (number 4) b.containers.length)
      (containerOffsets (8 + 8 * b.containers.length) b.containers)
      (Container.starts (8 + 8 * b.containers.length) b.containers) :=
    Container.reads_containerOffsets (by omega)
  have hblocks (place : Nat) : Reads (blocks place ((b.containers.map fun c =>
      (c.key, c.cardinality)).zip (Container.starts place b.containers)))
      (b.containers.flatMap Container.contents) b.ones := by
    rw [h.ones_eq, ← hpositions]
    exact Container.reads_blocks hlegible
  have hencode : b.encode = longBytes roaringMark ++ (longBytes b.containers.length ++
      (b.containers.flatMap Container.description ++
        (containerOffsets (8 + 8 * b.containers.length) b.containers ++
          b.containers.flatMap Container.contents))) := by
    rw [encode, if_pos hlen, roaring]
    simp only [List.append_assoc]
  rw [hencode]
  refine hmark.bind (reads_demand_bind rfl (hnumber.bind ?_))
  refine reads_demand_bind (decide_eq_true hcount) (hheader.bind ?_)
  exact reads_demand_bind (decide_eq_true hascending) (hoffsets.bind (hblocks _))

/-- Bitmaps of any lengths have the same encoding exactly if they have the same set positions. -/
theorem WellFormed.encode_eq_iff (ha : a.WellFormed) (hlenA : a.len ≤ roaringLimit)
    (hb : b.WellFormed) (hlenB : b.len ≤ roaringLimit) :
    a.encode = b.encode ↔ ∀ p, a.get p = b.get p := by
  constructor
  · intro hencode p
    have hreadA := ha.reads_encode hlenA []
    rw [hencode, hb.reads_encode hlenB [], ha.ones_eq, hb.ones_eq] at hreadA
    have hones : b.ascending = a.ascending := congrArg Prod.fst (Option.some.inj hreadA)
    rw [Bool.eq_iff_iff, ← mem_ascending_iff, ← mem_ascending_iff, hones]
  · intro hget
    rw [encode, encode, if_pos hlenA, if_pos hlenB, roaring, roaring, ha.containers_congr hb hget]

end Bitmap

/-! ## Entries of an index -/

namespace ByteReader

variable {α β : Type} {read : ByteReader α}

/-- Values that take up all bytes are read again and again until no bytes are left. -/
theorem untilEnd_flatMap {encode : β → List UInt8} {result : β → α} {list : List β}
    (h : ∀ x, x ∈ list → Reads read (encode x) (result x) ∧ encode x ≠ []) {limit : Nat}
    (hlimit : (list.flatMap encode).length ≤ limit) :
    untilEnd read limit (list.flatMap encode) = some (list.map result) := by
  induction list generalizing limit with
  | nil => cases limit <;> rfl
  | cons first rest ih =>
    obtain ⟨hfirst, hne⟩ := h first List.mem_cons_self
    have hrest := fun x hx => h x (List.mem_cons_of_mem first hx)
    obtain ⟨byte, others, hbytes⟩ := List.exists_cons_of_ne_nil hne
    rw [List.flatMap_cons] at hlimit ⊢
    have hread := hfirst (rest.flatMap encode)
    rw [hbytes, List.cons_append] at hlimit hread ⊢
    rw [List.length_cons, List.length_append] at hlimit
    cases limit with
    | zero => omega
    | succ limit =>
      rw [untilEnd, hread]
      · show (untilEnd read limit (rest.flatMap encode) >>= fun others =>
          some (result first :: others)) = _
        rw [ih hrest (by omega)]
        rfl
      · exact List.cons_ne_nil byte _

end ByteReader

open ByteReader

/-- An entry stands for its value and the set positions of its bitmap. -/
theorem Bitmap.WellFormed.reads_entry {b : Bitmap} (h : b.WellFormed) (hlen : b.len ≤ roaringLimit)
    (value : Int64) : Reads entry (Word.bytes value.toUInt64 ++ b.encode) (value, b.ones) := by
  have hread : Reads entry (Word.bytes value.toUInt64 ++ b.encode)
      (value.toUInt64.toNat.toUInt64.toInt64, b.ones) :=
    (reads_wordBytes value.toUInt64).bind ((h.reads_encode hlen).map fun positions =>
      (value.toUInt64.toNat.toUInt64.toInt64, positions))
  have hvalue : value.toUInt64.toNat.toUInt64.toInt64 = value := by
    rw [Nat.toUInt64_eq, UInt64.ofNat_toNat, Int64.toInt64_toUInt64]
  rwa [hvalue] at hread

namespace PerValueBitmap

/-- The bytes that are compressed, entry by entry. -/
theorem encoding_eq (p : PerValueBitmap) :
    p.encoding = p.bitmaps.toList.flatMap fun e => Word.bytes e.1.toUInt64 ++ e.2.encode := by
  have hfold (list : List (Int64 × Bitmap)) (buffer : List UInt8) :
      list.foldl (fun buffer e => e.2.appendTo (buffer ++ Word.bytes e.1.toUInt64)) buffer
        = buffer ++ list.flatMap fun e => Word.bytes e.1.toUInt64 ++ e.2.encode := by
    induction list generalizing buffer with
    | nil => exact (List.append_nil buffer).symm
    | cons e rest ih =>
      rw [List.foldl_cons, ih, List.flatMap_cons, Bitmap.appendTo]
      simp only [List.append_assoc]
  rw [encoding, Std.TreeMap.foldl_eq_foldl_toList, hfold, List.nil_append]

/-- The bytes of an index of a column are read entry by entry. -/
theorem Records.entries?_encoding {p : PerValueBitmap} {stripes : Nat}
    {recorded : Nat → Int64 → Prop} (h : Records p stripes recorded)
    (hstripes : stripes ≤ Bitmap.roaringLimit) :
    entries? p.encoding = some (p.bitmaps.toList.map fun e => (e.1, e.2.ones)) := by
  rw [encoding_eq, entries?]
  refine untilEnd_flatMap (fun e he => ⟨?_, ?_⟩) (Nat.le_refl _)
  · have hvalue : p.bitmaps[e.1]? = some e.2 :=
      Std.TreeMap.mem_toList_iff_getElem?_eq_some.1 he
    obtain ⟨hwf, hlen, -⟩ := h.kept hvalue
    exact hwf.reads_entry (hlen ▸ hstripes) e.1
  · exact List.append_ne_nil_of_left_ne_nil (List.cons_ne_nil _ _) _

end PerValueBitmap

namespace Bitmap

/-- Serializing a bitmap adds bytes behind the contents of a buffer, and a reader of portable
bitmaps takes exactly these bytes and gets the set positions, whatever follows.  So two bitmaps,
also of different lengths, add the same bytes exactly if they have the same set positions, and the
values and bitmaps of an index can be read back from the bytes that are compressed. -/
theorem appendTo_portable :
    (∀ b : Bitmap, b.Reachable → b.len ≤ roaringLimit → ∃ bytes,
      (∀ buffer, b.appendTo buffer = buffer ++ bytes) ∧
        ∀ rest, portable.run (bytes ++ rest) = some (b.ones, rest)) ∧
    (∀ a b : Bitmap, a.Reachable → a.len ≤ roaringLimit → b.Reachable → b.len ≤ roaringLimit →
      ∀ buffer, a.appendTo buffer = b.appendTo buffer ↔ ∀ p, a.get p = b.get p) ∧
    ∀ (c : Column) (stripeSize : Nat) (p : PerValueBitmap),
      PerValueBitmap.build c stripeSize = .ok p → p.numStripes ≤ roaringLimit →
        entries? p.encoding = some (p.bitmaps.toList.map fun e => (e.1, e.2.ones)) := by
  refine ⟨fun b h hlen => ?_, fun a b ha hlenA hb hlenB buffer => ?_,
    fun c stripeSize p hbuild hstripes => ?_⟩
  · exact ⟨b.encode, fun buffer => rfl, h.wellFormed.reads_encode hlen⟩
  · rw [appendTo, appendTo, List.append_right_inj]
    exact ha.wellFormed.encode_eq_iff hlenA hb.wellFormed hlenB
  · have hp := PerValueBitmap.records_of_build hbuild
    rw [hp.numStripes_eq] at hstripes
    exact hp.entries?_encoding hstripes

/-- Three positions are read back from behind other bytes, a longer bitmap with the same
positions adds the same bytes, and an index of three rows can be read. -/
theorem appendTo_portable_three_positions :
    (∃ bytes, threePositions.appendTo [1, 2] = [1, 2] ++ bytes ∧
      portable.run (bytes ++ [7]) = some ([3, 64, 199], [7])) ∧
    threePositions.appendTo [1] = (ofFn 300 threePositions.get).appendTo [1] ∧
    ∃ p, PerValueBitmap.build (Column.ofValues "c" #[7, Column.nullValue, 7]) 2 = .ok p ∧
      entries? p.encoding = some (p.bitmaps.toList.map fun e => (e.1, e.2.ones)) := by
  have hshort : threePositions.Reachable := reachable_iff.2 (wellFormed_ofFn _ _)
  have hlong : (ofFn 300 threePositions.get).Reachable := reachable_iff.2 (wellFormed_ofFn _ _)
  have hlen : threePositions.len ≤ roaringLimit := by decide
  have hones : threePositions.ones = [3, 64, 199] := by
    rw [hshort.wellFormed.ones_eq]
    decide +kernel
  obtain ⟨hread, hsame, hentries⟩ := appendTo_portable
  refine ⟨?_, ?_, ?_⟩
  · obtain ⟨bytes, happend, hbytes⟩ := hread threePositions hshort hlen
    exact ⟨bytes, happend [1, 2], hones ▸ hbytes [7]⟩
  · refine (hsame threePositions _ hshort hlen hlong (by decide) [1]).2 fun p => ?_
    rw [get_ofFn]
    by_cases hp : p < 300
    · simp [hp]
    · have hpast : ¬ p < threePositions.len := fun hlt => hp (Nat.lt_trans hlt (by decide))
      simp [hp, get_eq_stored, hpast]
  · have hsize : 0 < 2 := by decide
    obtain ⟨p, hbuild, hp⟩ :=
      PerValueBitmap.build_records (Column.ofValues "c" #[7, Column.nullValue, 7]) hsize
    exact ⟨p, hbuild, hentries _ 2 p hbuild (hp.numStripes_eq ▸ by decide +kernel)⟩

end Bitmap

end StripePruning
