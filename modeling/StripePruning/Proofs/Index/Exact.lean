import StripePruning.Index.PerValueBitmap
import StripePruning.Proofs.Bitmap.Bits
import StripePruning.Proofs.Column.Rows
import StripePruning.Proofs.Steps

/-!
# The bitmap index is exact

The index that keeps a bitmap for every value is the truth that all others are
measured against.  It is built by two nested loops, over the chunks of the rows
and over the values of a chunk, and each step adds one bit to one bitmap.

* `Records` is the invariant of both loops: the bits of the index are the pairs
  of a stripe and a value that were recorded.
* `record_ok` is one step, `recordChunk_ok` one chunk and `recordStripes_ok` the
  whole run.  None of them can fail.
* `build_records` says what a finished index records, and `build_exact` what
  follows for its answers.
-/

namespace StripePruning

namespace PerValueBitmap

/-! ## The invariant -/

/-- What is true of every bitmap that the index keeps: it is well formed, has a
bit for every stripe, and at least one of its bits is set. -/
def Kept (stripes : Nat) (bitmap : Bitmap) : Prop :=
  bitmap.WellFormed ∧ bitmap.len = stripes ∧ ∃ id, id < stripes ∧ bitmap.get id = true

/-- The index holds the recorded pairs of a stripe and a value and no others. -/
structure Records (p : PerValueBitmap) (stripes : Nat) (recorded : Nat → Int64 → Prop) :
    Prop where
  numStripes_eq : p.numStripes = stripes
  kept : ∀ {value : Int64} {bitmap : Bitmap}, p.bitmaps[value]? = some bitmap → Kept stripes bitmap
  holds_iff : ∀ {id : Nat} {value : Int64}, p.holds id value = true ↔ recorded id value

variable {p : PerValueBitmap} {stripes : Nat} {recorded recorded' : Nat → Int64 → Prop}

theorem Records.congr (h : Records p stripes recorded)
    (hiff : ∀ id value, recorded id value ↔ recorded' id value) : Records p stripes recorded' :=
  { h with holds_iff := h.holds_iff.trans (hiff _ _) }

/-- Whether a stripe holds a value is one bit of the bitmap of the value. -/
theorem holds_eq_get (p : PerValueBitmap) (id : Nat) (value : Int64) :
    p.holds id value = (p.bitmapOf value).get id := by
  rw [holds, bitmapOf, Std.TreeMap.getD_eq_getD_getElem?, Std.TreeMap.get?_eq_getElem?]
  cases p.bitmaps[value]? with
  | none => exact (Bitmap.get_zeros _ _).symm
  | some bitmap => rfl

/-- An index without values has recorded nothing. -/
theorem records_empty (stripes : Nat) : Records (empty stripes) stripes fun _ _ => False where
  numStripes_eq := rfl
  kept h := by simp [empty] at h
  holds_iff := by simp [empty, holds]

/-- The bitmap of a value is well formed also before the value is met. -/
theorem Records.bitmapOf_ok (h : Records p stripes recorded) (value : Int64) :
    (p.bitmapOf value).WellFormed ∧ (p.bitmapOf value).len = stripes := by
  rw [bitmapOf, Std.TreeMap.getD_eq_getD_getElem?]
  cases hvalue : p.bitmaps[value]? with
  | none => exact ⟨Bitmap.wellFormed_zeros _, h.numStripes_eq⟩
  | some bitmap => exact ⟨(h.kept hvalue).1, (h.kept hvalue).2.1⟩

/-! ## One step and a whole run -/

/-- Recording a value in a stripe adds this pair and keeps the others. -/
theorem record_ok (h : Records p stripes recorded) {id : Nat} (hid : id < stripes)
    (value : Int64) :
    ∃ p', p.record id value = .ok p' ∧
      Records p' stripes fun i v => recorded i v ∨ i = id ∧ v = value := by
  obtain ⟨hwf, hlen⟩ := h.bitmapOf_ok value
  obtain ⟨bitmap, hset, hwf', hlen', hget⟩ := hwf.set_true (hlen.symm ▸ hid)
  refine ⟨{ p with bitmaps := p.bitmaps.insert value bitmap }, by rw [record, hset]; rfl, ?_⟩
  have hinsert : ∀ other, (p.bitmaps.insert value bitmap)[other]?
      = if value = other then some bitmap else p.bitmaps[other]? := by
    intro other
    rw [Std.TreeMap.getElem?_insert]
    simp only [Std.LawfulEqCmp.compare_eq_iff_eq]
  refine ⟨h.numStripes_eq, ?_, ?_⟩
  · intro other kept hkept
    rw [hinsert] at hkept
    split at hkept
    · obtain rfl := Option.some.inj hkept
      exact ⟨hwf', hlen'.trans hlen, id, hid, by simp [hget]⟩
    · exact h.kept hkept
  · intro i v
    -- Only the bitmap of `value` changes, so the other values are looked up as before.
    by_cases hv : value = v
    · subst hv
      have hholds : holds { p with bitmaps := p.bitmaps.insert value bitmap } i value
          = bitmap.get i := by
        simp [holds]
      rw [hholds, hget, Bool.or_eq_true, decide_eq_true_eq, ← holds_eq_get, h.holds_iff]
      tauto
    · have hholds : holds { p with bitmaps := p.bitmaps.insert value bitmap } i v
          = p.holds i v := by
        simp [holds, hinsert, hv]
      rw [hholds, h.holds_iff]
      tauto

/-- Recording the values of a chunk adds each of them for the same stripe. -/
theorem recordChunk_ok (h : Records p stripes recorded) {id : Nat} (hid : id < stripes)
    (chunk : List Int64) :
    ∃ p', chunk.foldlM (fun p value => p.record id value) p = .ok p' ∧
      Records p' stripes fun i v => recorded i v ∨ i = id ∧ v ∈ chunk := by
  induction chunk generalizing p recorded with
  | nil => exact ⟨p, rfl, h.congr fun i v => by simp⟩
  | cons value rest ih =>
    obtain ⟨p₁, hrecord, h₁⟩ := record_ok h hid value
    obtain ⟨p₂, hrest, h₂⟩ := ih h₁
    refine ⟨p₂, ?_, h₂.congr fun i v => ?_⟩
    · rw [List.foldlM_cons, hrecord]
      exact hrest
    · rw [List.mem_cons]
      tauto

/-- The pairs of the chunks from stripe `id` on are those of the first chunk and
those of the others. -/
private theorem exists_piece_cons {chunk : List Int64} {rest : List (List Int64)} {id i : Nat}
    {v : Int64} :
    (∃ k piece, (chunk :: rest)[k]? = some piece ∧ i = id + k ∧ v ∈ piece) ↔
      i = id ∧ v ∈ chunk ∨ ∃ k piece, rest[k]? = some piece ∧ i = id + 1 + k ∧ v ∈ piece := by
  constructor
  · rintro ⟨k, piece, hpiece, hi, hv⟩
    cases k with
    | zero =>
      obtain rfl := Option.some.inj hpiece
      exact Or.inl ⟨hi, hv⟩
    | succ k => exact Or.inr ⟨k, piece, hpiece, by omega, hv⟩
  · rintro (⟨hi, hv⟩ | ⟨k, piece, hpiece, hi, hv⟩)
    · exact ⟨0, chunk, rfl, hi, hv⟩
    · exact ⟨k + 1, piece, hpiece, by omega, hv⟩

/-- Recording chunks from stripe `id` on adds the values of each chunk for its
own stripe.  The run succeeds as long as there are stripes for all chunks. -/
theorem recordStripes_ok (h : Records p stripes recorded) (id : Nat) (pieces : List (List Int64))
    (hid : id + pieces.length ≤ stripes) :
    ∃ p', recordStripes p id pieces = .ok p' ∧
      Records p' stripes fun i v =>
        recorded i v ∨ ∃ k piece, pieces[k]? = some piece ∧ i = id + k ∧ v ∈ piece := by
  induction pieces generalizing p recorded id with
  | nil => exact ⟨p, rfl, h.congr fun i v => by simp⟩
  | cons chunk rest ih =>
    rw [List.length_cons] at hid
    have hlt : id < stripes := by omega
    obtain ⟨p₁, hchunk, h₁⟩ := recordChunk_ok h hlt chunk
    obtain ⟨p₂, hrest, h₂⟩ := ih h₁ (id + 1) (by omega)
    refine ⟨p₂, ?_, h₂.congr fun i v => ?_⟩
    · rw [recordStripes, hchunk]
      exact hrest
    · rw [exists_piece_cons, or_assoc]

/-! ## The finished index -/

/-- Building an index succeeds, and the index records which stripe of the column
contains which value. -/
theorem build_records (c : Column) {stripeSize : Nat} (hsize : 0 < stripeSize) :
    ∃ p, build c stripeSize = .ok p ∧
      Records p (c.numStripes stripeSize) fun id value =>
        c.stripeContains stripeSize id value = true := by
  have hlength := Column.length_chunks c hsize
  obtain ⟨p, hrun, hp⟩ := recordStripes_ok (records_empty (c.numStripes stripeSize)) 0
    (chunks stripeSize c.values.toList) (by omega)
  refine ⟨p, ?_, hp.congr fun id value => ?_⟩
  · rw [build, checkStripeSize_bind_eq_ok]
    exact ⟨hsize, hrun⟩
  · rw [← Column.exists_chunk_iff c hsize]
    simp

theorem stripeSize_pos_of_build {c : Column} {stripeSize : Nat}
    (h : build c stripeSize = .ok p) : 0 < stripeSize :=
  (checkStripeSize_bind_eq_ok.1 h).1

theorem records_of_build {c : Column} {stripeSize : Nat} (h : build c stripeSize = .ok p) :
    Records p (c.numStripes stripeSize) fun id value =>
      c.stripeContains stripeSize id value = true := by
  obtain ⟨built, hbuilt, hrecords⟩ := build_records c (stripeSize_pos_of_build h)
  obtain rfl := Except.ok.inj (hbuilt.symm.trans h)
  exact hrecords

/-- The answer for a value has the bits of the stripes that hold it, whether the
stored bitmap is taken as it is or cut or extended. -/
theorem Records.stripesOf_eq (h : Records p stripes recorded) (value : Int64) (n : Nat) :
    p.stripesOf value n = Bitmap.ofFn n fun id => p.holds id value := by
  rw [stripesOf, Std.TreeMap.get?_eq_getElem?]
  cases hvalue : p.bitmaps[value]? with
  | none => simp [Bitmap.zeros_eq_ofFn, holds, hvalue]
  | some bitmap =>
    have hholds : (fun id => p.holds id value) = bitmap.get := by
      funext id
      simp [holds, hvalue]
    rw [hholds]
    show (if bitmap.len = n then bitmap else Bitmap.ofFn n bitmap.get) = _
    by_cases hlen : bitmap.len = n
    · rw [if_pos hlen, ← hlen]
      exact (h.kept hvalue).1.eq_ofFn
    · exact if_neg hlen

/-- The answer of the index of a column has the bits of the stripes that hold the value. -/
theorem Records.qualifyingStripes_eq {c : Column} {stripeSize n : Nat}
    (h : Records p stripes fun id value => c.stripeContains stripeSize id value = true)
    (value : Int64) :
    StripeIndex.qualifyingStripes p value n
      = Bitmap.ofFn n fun id => c.stripeContains stripeSize id value := by
  refine (h.stripesOf_eq value n).trans (Bitmap.ofFn_congr ?_)
  intro id _
  exact Bool.eq_iff_iff.2 h.holds_iff

/-- The values with a bitmap are those of the recorded pairs. -/
theorem Records.mem_keys_iff (h : Records p stripes recorded) {value : Int64} :
    value ∈ p.bitmaps.keys ↔ ∃ id, recorded id value := by
  rw [Std.TreeMap.mem_keys, Std.TreeMap.mem_iff_isSome_getElem?, Option.isSome_iff_exists]
  constructor
  · rintro ⟨bitmap, hvalue⟩
    obtain ⟨-, -, id, -, hget⟩ := h.kept hvalue
    exact ⟨id, h.holds_iff.1 (by simp [holds, hvalue, hget])⟩
  · rintro ⟨id, hrecorded⟩
    have hholds := h.holds_iff.2 hrecorded
    cases hvalue : p.bitmaps[value]? with
    | none => simp [holds, hvalue] at hholds
    | some bitmap => exact ⟨bitmap, rfl⟩

/-- The bitmap index of a column can always be built, and it is exact: a stripe
is named for a value, the null value included, if and only if one of its rows
holds the value.  The answer for any number of stripes is the one that asking
stripe by stripe gives.  There is one bitmap for each value of the rows, with a
bit for each stripe and at least one bit set. -/
theorem build_exact (c : Column) {stripeSize : Nat} (hsize : 0 < stripeSize) :
    ∃ p, build c stripeSize = .ok p ∧
      (∀ id value, StripeIndex.stripeContains p id value = c.stripeContains stripeSize id value) ∧
      (∀ id value, StripeIndex.stripeContains p id value = true ↔
        ∃ row, c.valueAt? row = some value ∧ row / stripeSize = id) ∧
      (∀ value n, StripeIndex.qualifyingStripes p value n
        = Bitmap.ofFn n fun id => StripeIndex.stripeContains p id value) ∧
      p.bitmaps.keys.Nodup ∧
      (∀ value, value ∈ p.bitmaps.keys ↔ value ∈ c.values) ∧
      ∀ value bitmap, p.bitmaps.get? value = some bitmap →
        bitmap.len = c.numStripes stripeSize ∧ ∃ id, id < bitmap.len ∧ bitmap.get id = true := by
  obtain ⟨p, hbuild, hp⟩ := build_records c hsize
  refine ⟨p, hbuild, fun id value => Bool.eq_iff_iff.2 hp.holds_iff, fun id value => ?_,
    fun value n => hp.stripesOf_eq value n, Std.TreeMap.nodup_keys, fun value => ?_, ?_⟩
  · exact hp.holds_iff.trans (Column.stripeContains_iff hsize)
  · rw [hp.mem_keys_iff, ← Column.exists_stripeContains_iff hsize]
  · intro value bitmap hbitmap
    obtain ⟨-, hlen, hset⟩ := hp.kept hbitmap
    exact ⟨hlen, hlen ▸ hset⟩

/-- Three stripes of two rows, the last one with one row only, and a null value
in the first. -/
theorem build_exact_partial_stripe :
    0 < 2 ∧ ∃ p, build (Column.ofValues "c" #[7, Column.nullValue, 7, 8, 9]) 2 = .ok p ∧
      StripeIndex.stripeContains p 0 Column.nullValue = true ∧
      StripeIndex.stripeContains p 1 Column.nullValue = false ∧
      StripeIndex.stripeContains p 2 9 = true ∧
      StripeIndex.qualifyingStripes p 7 5 = Bitmap.ofFn 5 (fun id => id < 2) := by
  have hsize : 0 < 2 := by decide
  obtain ⟨p, hbuild, hcontains, -, hanswer, -⟩ :=
    build_exact (Column.ofValues "c" #[7, Column.nullValue, 7, 8, 9]) hsize
  have hseven : ∀ id, id < 5 →
      (Column.ofValues "c" #[7, Column.nullValue, 7, 8, 9]).stripeContains 2 id 7
        = decide (id < 2) := by
    decide +kernel
  refine ⟨hsize, p, hbuild, ?_, ?_, ?_, ?_⟩
  · rw [hcontains]
    decide +kernel
  · rw [hcontains]
    decide +kernel
  · rw [hcontains]
    decide +kernel
  · rw [hanswer]
    simp only [hcontains]
    exact Bitmap.ofFn_congr hseven

end PerValueBitmap

end StripePruning
