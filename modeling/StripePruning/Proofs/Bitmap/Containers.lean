import StripePruning.Bitmap.Roaring
import StripePruning.Proofs.Bitmap.Walk

/-!
# The blocks of a bitmap

The portable encoding cuts a bitmap into blocks of 65536 positions and keeps a container for
each block with a set position.

* `block` is one block as a bitmap of its own.  `get_block` reads it, and `ascending_blocks` puts
  the set positions of all blocks together.
* `containers_eq` takes the containers from as many blocks as one likes, if they cover the bitmap.
  So the containers depend on the set bits only, and not on the length: `containers_congr`.
* `Container.Legible` is what a reader of an encoding relies on.
-/

namespace StripePruning

namespace Bitmap

variable {a b : Bitmap} {key keys : Nat}

/-! ## One block -/

/-- One block of 65536 positions. -/
def block (b : Bitmap) (key : Nat) : Bitmap :=
  { len := 65536, words := (Container.ofBitmap b key).words }

theorem words_block {i : Nat} (hi : i < 1024) :
    (b.block key).words.getD i 0 = b.words.getD (key * 1024 + i) 0 := by
  simp [block, Container.ofBitmap, Container.wordCount, hi]

theorem stored_block {p : Nat} (hp : p < 65536) :
    (b.block key).stored p = b.stored (key * 65536 + p) := by
  have hbits : wordBits = 64 := rfl
  have hword : (key * 65536 + p) / wordBits = key * 1024 + p / wordBits := by
    rw [hbits]
    omega
  have hbit : (key * 65536 + p) % wordBits = p % wordBits := by
    rw [hbits]
    omega
  have hi : p / wordBits < 1024 := by
    rw [hbits]
    omega
  rw [stored, stored, words_block hi, hword, ← Word.test_mod _ (key * 65536 + p), hbit,
    Word.test_mod]

theorem size_words_block (b : Bitmap) (key : Nat) : (b.block key).words.size = 1024 := by
  simp [block, Container.ofBitmap, Container.wordCount]

theorem wellFormed_block (b : Bitmap) (key : Nat) : (b.block key).WellFormed := by
  have hwords : wordsFor 65536 = 1024 := by decide
  refine ⟨(size_words_block b key).trans hwords.symm, fun p hp => ?_⟩
  have hle : 65536 ≤ p := hp
  apply stored_eq_false
  rw [size_words_block, wordBits]
  omega

/-- A block has the bits of the bitmap from its first position on. -/
theorem WellFormed.get_block (h : b.WellFormed) (key p : Nat) :
    (b.block key).get p = (decide (p < 65536) && b.get (key * 65536 + p)) := by
  rw [get_eq_stored, h.get_eq]
  show (decide (p < 65536) && _) = _
  by_cases hp : p < 65536
  · rw [stored_block hp]
  · simp [hp]

theorem ascending_block (b : Bitmap) (key : Nat) :
    (b.block key).ascending = (List.range 65536).filter (b.block key).get := rfl

/-! ## All blocks -/

/-- The positions are those with a set bit, since none is set past the end. -/
theorem mem_ascending_iff {p : Nat} : p ∈ b.ascending ↔ b.get p = true := by
  rw [mem_ascending, get_eq_stored]
  simp

/-- The length may be exceeded, since there is no set position past the end. -/
theorem filter_range_get {n : Nat} (hn : b.len ≤ n) :
    (List.range n).filter b.get = b.ascending := by
  obtain ⟨surplus, rfl⟩ : ∃ surplus, n = b.len + surplus := ⟨n - b.len, by omega⟩
  have hnone : ((List.range surplus).map (b.len + ·)).filter b.get = [] := by
    rw [List.filter_eq_nil_iff]
    intro p hp
    obtain ⟨i, -, rfl⟩ := List.mem_map.1 hp
    simp [get_eq_stored]
  rw [List.range_add, List.filter_append, hnone, List.append_nil, ascending]

/-- The positions with some property, block by block. -/
theorem filter_range_blocks (bits : Nat → Bool) (length keys : Nat) :
    (List.range (keys * length)).filter bits
      = (List.range keys).flatMap fun key =>
          ((List.range length).filter fun p => bits (key * length + p)).map (key * length + ·) := by
  induction keys with
  | zero => rw [Nat.zero_mul]; rfl
  | succ keys ih =>
    rw [Nat.add_mul, Nat.one_mul, List.range_add, List.filter_append, ih, List.filter_map,
      List.range_succ, List.flatMap_append, List.flatMap_singleton]
    rfl

/-- The set positions of a bitmap are those of its blocks. -/
theorem WellFormed.ascending_blocks (h : b.WellFormed) (hkeys : b.len ≤ keys * 65536) :
    b.ascending = (List.range keys).flatMap fun key =>
      (b.block key).ascending.map (key * 65536 + ·) := by
  rw [← filter_range_get hkeys]
  refine (filter_range_blocks b.get 65536 keys).trans ?_
  refine List.flatMap_congr fun key _ => congrArg (List.map (key * 65536 + ·)) ?_
  rw [ascending_block]
  apply List.filter_congr
  intro p hp
  rw [h.get_block, decide_eq_true (List.mem_range.1 hp), Bool.true_and]

/-! ## Containers -/

/-- There are as many set positions as the count says. -/
theorem WellFormed.length_ascending (h : b.WellFormed) : b.ascending.length = b.count := by
  have hnodup : b.ascending.Nodup := b.pairwise_ascending.imp fun hlt => Nat.ne_of_lt hlt
  rw [h.count_eq_card, ← List.toFinset_card_of_nodup hnodup]
  apply congrArg Finset.card
  ext p
  rw [List.mem_toFinset, mem_ascending, positions, Finset.mem_filter, Finset.mem_range]

theorem positions_ofBitmap (b : Bitmap) (key : Nat) :
    (Container.ofBitmap b key).positions = (b.block key).ascending :=
  (wellFormed_block b key).ones_eq

theorem cardinality_ofBitmap (b : Bitmap) (key : Nat) :
    (Container.ofBitmap b key).cardinality = (b.block key).ascending.length :=
  (wellFormed_block b key).length_ascending.symm

/-- A block past the end has no set positions. -/
theorem WellFormed.cardinality_eq_zero (h : b.WellFormed) (hkey : b.len ≤ key * 65536) :
    (Container.ofBitmap b key).cardinality = 0 := by
  rw [cardinality_ofBitmap, List.length_eq_zero_iff, ascending, List.filter_eq_nil_iff]
  intro p _
  have hpast : ¬ key * 65536 + p < b.len := by omega
  simp [h.get_block, get_eq_stored b, hpast]

/-- The blocks that are looked at cover the bitmap, and no fewer would. -/
theorem WellFormed.block_count (h : b.WellFormed) :
    ∃ count, (b.words.size + (Container.wordCount - 1)) / Container.wordCount = count ∧
      b.len ≤ count * 65536 ∧ ∀ keys, b.len ≤ keys * 65536 → count ≤ keys := by
  have hbits : wordBits = 64 := rfl
  have hwords : Container.wordCount = 1024 := rfl
  have hsize := h.1
  rw [wordsFor, hbits] at hsize
  rw [hwords]
  refine ⟨_, rfl, by omega, fun keys hkeys => by omega⟩

/-- Blocks past the end do not add containers. -/
theorem WellFormed.containers_eq (h : b.WellFormed) (hkeys : b.len ≤ keys * 65536) :
    b.containers = ((List.range keys).map (Container.ofBitmap b)).filter
      fun c => c.cardinality ≠ 0 := by
  obtain ⟨count, hcount, hcover, hleast⟩ := h.block_count
  obtain ⟨surplus, rfl⟩ := Nat.exists_eq_add_of_le (hleast keys hkeys)
  have hnone : (((List.range surplus).map (count + ·)).map (Container.ofBitmap b)).filter
      (fun c => c.cardinality ≠ 0) = [] := by
    rw [List.filter_eq_nil_iff]
    intro c hc
    obtain ⟨key, hkey, rfl⟩ := List.mem_map.1 hc
    obtain ⟨i, -, rfl⟩ := List.mem_map.1 hkey
    have hpast := hcover.trans (Nat.mul_le_mul_right 65536 (Nat.le_add_right count i))
    simp [h.cardinality_eq_zero hpast]
  rw [containers, hcount, List.range_add, List.map_append, List.filter_append, hnone,
    List.append_nil]

/-- Bitmaps with the same set bits have the same containers, whatever their lengths are. -/
theorem WellFormed.containers_congr (ha : a.WellFormed) (hb : b.WellFormed)
    (hget : ∀ p, a.get p = b.get p) : a.containers = b.containers := by
  have hkeys : a.len ≤ (a.len + b.len) * 65536 ∧ b.len ≤ (a.len + b.len) * 65536 := by omega
  have hblock (key : Nat) : a.block key = b.block key := by
    apply (wellFormed_block a key).ext (wellFormed_block b key) rfl
    intro p
    rw [ha.get_block, hb.get_block, hget]
  have hcontainer (key : Nat) : Container.ofBitmap a key = Container.ofBitmap b key := by
    have hwords : (Container.ofBitmap a key).words = (Container.ofBitmap b key).words :=
      congrArg Bitmap.words (hblock key)
    have hcardinality := cardinality_ofBitmap a key
    rw [hblock, ← cardinality_ofBitmap] at hcardinality
    exact (Container.mk.injEq ..).mpr ⟨rfl, hwords, hcardinality⟩
  rw [ha.containers_eq hkeys.1, hb.containers_eq hkeys.2, funext hcontainer]

/-- What a reader of a container relies on. -/
structure Container.Legible (c : Container) : Prop where
  key_lt : c.key < 65536
  size_words : c.words.size = 1024
  positions_eq : c.positions = (List.range 65536).filter fun p =>
    Word.test (c.words.getD (p / wordBits) 0) p
  cardinality_eq : c.cardinality = c.positions.length
  cardinality_pos : 0 < c.cardinality

namespace Container

variable {c : Container}

theorem Legible.position_lt (h : c.Legible) {p : Nat} (hp : p ∈ c.positions) : p < 65536 := by
  rw [h.positions_eq] at hp
  exact List.mem_range.1 (List.mem_filter.1 hp).1

theorem Legible.ascending (h : c.Legible) : c.positions.Pairwise (· < ·) := by
  rw [h.positions_eq]
  exact List.pairwise_lt_range.filter _

theorem Legible.cardinality_le (h : c.Legible) : c.cardinality ≤ 65536 := by
  have hle := List.length_filter_le
    (fun p => Word.test (c.words.getD (p / wordBits) 0) p) (List.range 65536)
  rwa [← h.positions_eq, ← h.cardinality_eq, List.length_range] at hle

end Container

theorem legible_ofBitmap (b : Bitmap) (hkey : key < 65536)
    (hpos : (Container.ofBitmap b key).cardinality ≠ 0) :
    (Container.ofBitmap b key).Legible where
  key_lt := hkey
  size_words := size_words_block b key
  positions_eq := by
    rw [positions_ofBitmap, ascending_block]
    apply List.filter_congr
    intro p _
    exact (wellFormed_block b key).get_eq p
  cardinality_eq := by rw [cardinality_ofBitmap, positions_ofBitmap]
  cardinality_pos := Nat.pos_of_ne_zero hpos

/-- Leaving out what adds nothing makes no difference. -/
private theorem flatMap_filter {α β : Type} {keep : α → Bool} {f : α → List β} {list : List α}
    (hdrop : ∀ x, x ∈ list → keep x = false → f x = []) :
    (list.filter keep).flatMap f = list.flatMap f := by
  induction list with
  | nil => rfl
  | cons first rest ih =>
    have hrest := ih fun x hx => hdrop x (List.mem_cons_of_mem first hx)
    cases hkeep : keep first with
    | true => rw [List.filter_cons_of_pos hkeep, List.flatMap_cons, List.flatMap_cons, hrest]
    | false =>
      rw [List.filter_cons_of_neg (by simp [hkeep]), List.flatMap_cons, hrest,
        hdrop first List.mem_cons_self hkeep, List.nil_append]

/-- The containers of a bitmap that is not too long: there are few enough of them, in ascending
order, and they hold the set positions. -/
theorem WellFormed.containers_hold (h : b.WellFormed) (hlen : b.len ≤ roaringLimit) :
    b.containers.length ≤ 65536 ∧ (∀ c, c ∈ b.containers → c.Legible) ∧
      b.containers.Pairwise (fun c d => c.key < d.key) ∧
      (b.containers.flatMap fun c => c.positions.map (c.key * 65536 + ·)) = b.ascending := by
  have hlimit : roaringLimit = 4294967295 := rfl
  have hkeys : b.len ≤ 65536 * 65536 := by omega
  have hcontainers := h.containers_eq hkeys
  refine ⟨?_, ?_, ?_, ?_⟩
  · rw [hcontainers]
    refine (List.length_filter_le _ _).trans ?_
    rw [List.length_map, List.length_range]
  · intro c hc
    rw [hcontainers, List.mem_filter, List.mem_map] at hc
    obtain ⟨⟨key, hkey, rfl⟩, hpos⟩ := hc
    exact legible_ofBitmap b (List.mem_range.1 hkey) (of_decide_eq_true hpos)
  · rw [hcontainers]
    apply List.Pairwise.filter
    rw [List.pairwise_map]
    exact List.pairwise_lt_range
  · rw [hcontainers, flatMap_filter, List.flatMap_map, h.ascending_blocks hkeys]
    · exact List.flatMap_congr fun key _ => congrArg _ (positions_ofBitmap b key)
    · intro c hc hzero
      obtain ⟨key, -, rfl⟩ := List.mem_map.1 hc
      have hnil : (Container.ofBitmap b key).positions = [] := by
        rw [positions_ofBitmap, ← List.length_eq_zero_iff, ← cardinality_ofBitmap]
        simpa using hzero
      rw [hnil, List.map_nil]

end Bitmap

end StripePruning
