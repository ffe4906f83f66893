import Mathlib.Algebra.Order.BigOperators.Group.List
import Mathlib.Algebra.Order.Field.Basic
import Mathlib.Algebra.Order.Field.Rat
import Mathlib.Tactic.FieldSimp
import Mathlib.Tactic.Ring
import StripePruning.Index.PerValueBitmap
import StripePruning.Proofs.Bitmap.InPlace

/-!
# Running means are means

The statistics over several bitmaps are kept as running means, which take one bitmap after the
other.  In exact numbers they are the arithmetic means.

* `mean` is the sum divided by the length.  `mean_append` joins two of them, and `mean_concat`
  says how one more number moves it.
* `add_means` is one bitmap and `foldl_add_means` a list of them.
* `BitmapStats.ofList_means` puts this together: the means of a list, of its rearrangements and
  of two lists one after the other.
-/

namespace StripePruning

/-! ## Means of exact numbers -/

/-- The arithmetic mean, zero for no numbers. -/
def mean (xs : List ℚ) : ℚ :=
  xs.sum / xs.length

variable {xs ys : List ℚ}

theorem length_mul_mean (xs : List ℚ) : xs.length * mean xs = xs.sum := by
  cases xs with
  | nil => rw [List.sum_nil, List.length_nil, Nat.cast_zero, zero_mul]
  | cons x rest =>
    have hlength : ((x :: rest).length : ℚ) ≠ 0 := Nat.cast_ne_zero.2 (Nat.succ_ne_zero _)
    exact mul_div_cancel₀ _ hlength

/-- A mean of two lists is weighted by their lengths. -/
theorem mean_append (xs ys : List ℚ) :
    mean (xs ++ ys) = (xs.length * mean xs + ys.length * mean ys) / (xs.length + ys.length) := by
  rw [length_mul_mean, length_mul_mean, mean, List.sum_append, List.length_append, Nat.cast_add]

/-- One more number moves the mean by a share of its distance. -/
theorem mean_concat (xs : List ℚ) (x : ℚ) :
    mean (xs ++ [x]) = mean xs + (x - mean xs) / ((xs.length + 1 : Nat) : ℚ) := by
  have hpos : (xs.length : ℚ) + 1 ≠ 0 := Nat.cast_add_one_ne_zero _
  have hone : mean [x] = x := by
    rw [mean, List.sum_singleton, List.length_singleton, Nat.cast_one, div_one]
  rw [mean_append, hone, List.length_singleton, Nat.cast_one, Nat.cast_add_one]
  field_simp
  ring

theorem mean_perm (h : xs.Perm ys) : mean xs = mean ys := by
  rw [mean, mean, h.sum_eq, h.length_eq]

/-- The mean of rates is a rate. -/
theorem mean_mem (h : ∀ x ∈ xs, 0 ≤ x ∧ x ≤ 1) : 0 ≤ mean xs ∧ mean xs ≤ 1 := by
  have hlower : 0 ≤ xs.sum := List.sum_nonneg fun x hx => (h x hx).1
  have hupper : xs.sum ≤ xs.length := by
    have hbound := List.sum_le_card_nsmul xs 1 fun x hx => (h x hx).2
    rwa [nsmul_one] at hbound
  exact ⟨div_nonneg hlower (Nat.cast_nonneg _), div_le_one_of_le₀ hupper (Nat.cast_nonneg _)⟩

/-! ## Running means -/

namespace Bitmap

theorem WellFormed.density_mem {b : Bitmap} (h : b.WellFormed) :
    0 ≤ (b.density : ℚ) ∧ (b.density : ℚ) ≤ 1 := by
  rw [density]
  split
  · exact ⟨le_refl 0, zero_le_one⟩
  · have hle : (b.count : ℚ) ≤ b.len := Nat.cast_le.2 h.count_le_len
    exact ⟨div_nonneg (Nat.cast_nonneg _) (Nat.cast_nonneg _),
      div_le_one_of_le₀ hle (Nat.cast_nonneg _)⟩

end Bitmap

namespace BitmapStats

/-- The arithmetic means over a list of bitmaps. -/
def means (bitmaps : List Bitmap) : BitmapStats ℚ where
  bitmaps := bitmaps.length
  density := mean (bitmaps.map Bitmap.density)
  clustering := mean (bitmaps.map Bitmap.clustering)

/-- One more bitmap turns the means into those of the longer list. -/
theorem add_means (bitmaps : List Bitmap) (b : Bitmap) :
    (means bitmaps).add b = means (bitmaps ++ [b]) := by
  ext
  · simp [add, means]
  · simp [add, means, mean_concat]
  · simp [add, means, mean_concat]

theorem foldl_add_means (bitmaps more : List Bitmap) :
    more.foldl add (means bitmaps) = means (bitmaps ++ more) := by
  induction more generalizing bitmaps with
  | nil => rw [List.foldl_nil, List.append_nil]
  | cons b rest ih => rw [List.foldl_cons, add_means, ih, List.append_assoc, List.singleton_append]

theorem means_nil : means [] = {} := by
  ext <;> simp [means, mean, EmptyCollection.emptyCollection]

theorem ofList_eq_means (bitmaps : List Bitmap) : ofList bitmaps = means bitmaps := by
  rw [ofList, ← means_nil, foldl_add_means, List.nil_append]

theorem means_perm {bitmaps other : List Bitmap} (h : bitmaps.Perm other) :
    means bitmaps = means other := by
  ext
  · exact h.length_eq
  · exact mean_perm (h.map _)
  · exact mean_perm (h.map _)

/-- The number of bitmaps is counted alike in all numbers. -/
theorem bitmaps_foldl_add {α : Type} [Zero α] [Add α] [Sub α] [Div α] [NatCast α]
    (bitmaps : List Bitmap) (s : BitmapStats α) :
    (bitmaps.foldl add s).bitmaps = s.bitmaps + bitmaps.length := by
  induction bitmaps generalizing s with
  | nil => rfl
  | cons b rest ih =>
    rw [List.foldl_cons, ih, List.length_cons, Nat.add_comm rest.length, ← Nat.add_assoc]
    rfl

/-- In exact numbers the statistics over a list of bitmaps are their number and the arithmetic
means of their densities and clusterings, all zero for no bitmap.  So the order of the bitmaps
does not matter, neither does the one in which an index holds them.  The mean density is a rate.
Taking another list behind the first one gives the means of both, weighted by their lengths. -/
theorem ofList_means (bitmaps : List Bitmap) :
    (ofList bitmaps : BitmapStats ℚ) =
        { bitmaps := bitmaps.length
          density := (bitmaps.map Bitmap.density).sum / bitmaps.length
          clustering := (bitmaps.map Bitmap.clustering).sum / bitmaps.length } ∧
      (ofList [] : BitmapStats ℚ) = { bitmaps := 0, density := 0, clustering := 0 } ∧
      (ofList bitmaps : BitmapStats Float).bitmaps = bitmaps.length ∧
      (∀ other, other.Perm bitmaps → (ofList other : BitmapStats ℚ) = ofList bitmaps) ∧
      (∀ index : PerValueBitmap, bitmaps.Perm index.bitmaps.values →
        (ofList bitmaps : BitmapStats ℚ) = index.stats) ∧
      ((∀ b ∈ bitmaps, b.Reachable) →
        0 ≤ (ofList bitmaps : BitmapStats ℚ).density ∧
          (ofList bitmaps : BitmapStats ℚ).density ≤ 1) ∧
      ∀ more : List Bitmap, more.foldl add (ofList bitmaps : BitmapStats ℚ) =
        { bitmaps := bitmaps.length + more.length
          density :=
            (bitmaps.length * (ofList bitmaps).density + more.length * (ofList more).density) /
              (bitmaps.length + more.length)
          clustering :=
            (bitmaps.length * (ofList bitmaps).clustering
              + more.length * (ofList more).clustering) / (bitmaps.length + more.length) } := by
  have horder (other : List Bitmap) (h : other.Perm bitmaps) :
      (ofList other : BitmapStats ℚ) = ofList bitmaps := by
    rw [ofList_eq_means, ofList_eq_means, means_perm h]
  refine ⟨?_, rfl, ?_, horder, fun index h => (horder _ h.symm).symm, ?_, ?_⟩
  · rw [ofList_eq_means, means, mean, mean, List.length_map, List.length_map]
  · rw [ofList, bitmaps_foldl_add]
    exact Nat.zero_add _
  · intro hreachable
    rw [ofList_eq_means]
    apply mean_mem
    intro x hx
    obtain ⟨b, hb, rfl⟩ := List.mem_map.1 hx
    exact (hreachable b hb).wellFormed.density_mem
  · intro more
    rw [ofList_eq_means, ofList_eq_means, foldl_add_means]
    ext
    · exact List.length_append
    · simp [means, mean_append]
    · simp [means, mean_append]

/-- Two bitmaps of four bits, and one without bits. -/
def unequalBitmaps : List Bitmap :=
  [.ofFn 4 fun _ => true, .ofFn 4 fun p => p != 1, .zeros 0]

theorem ofList_means_of_unequal :
    (∀ b ∈ unequalBitmaps, b.Reachable) ∧
      (ofList unequalBitmaps : BitmapStats ℚ)
        = { bitmaps := 3, density := 7 / 12, clustering := 11 / 6 } ∧
      (ofList unequalBitmaps.reverse : BitmapStats ℚ) = ofList unequalBitmaps ∧
      0 ≤ (ofList unequalBitmaps : BitmapStats ℚ).density ∧
      (ofList unequalBitmaps : BitmapStats ℚ).density ≤ 1 := by
  have hreachable : ∀ b ∈ unequalBitmaps, b.Reachable := by
    intro b hb
    rw [Bitmap.reachable_iff]
    simp only [unequalBitmaps, List.mem_cons, List.not_mem_nil, or_false] at hb
    rcases hb with rfl | rfl | rfl
    · exact Bitmap.wellFormed_ofFn _ _
    · exact Bitmap.wellFormed_ofFn _ _
    · exact Bitmap.wellFormed_zeros 0
  obtain ⟨hmeans, -, -, horder, -, hrate, -⟩ := ofList_means unequalBitmaps
  have hdensity : (unequalBitmaps.map Bitmap.density : List ℚ).sum = 7 / 4 := by decide +kernel
  have hclustering : (unequalBitmaps.map Bitmap.clustering : List ℚ).sum = 11 / 2 := by
    decide +kernel
  refine ⟨hreachable, ?_, horder _ (List.reverse_perm _), hrate hreachable⟩
  rw [hmeans, hdensity, hclustering]
  ext
  · rfl
  · norm_num [unequalBitmaps]
  · norm_num [unequalBitmaps]

end BitmapStats

end StripePruning
