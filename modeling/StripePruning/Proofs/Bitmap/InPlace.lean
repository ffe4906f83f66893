import StripePruning.Bitmap.InPlace
import StripePruning.Proofs.Bitmap.Positions

/-!
# Bitmaps that calls can reach

Calls make bitmaps and change them in place, and some of the calls fail.  However they
follow each other, every bitmap is in its normal form, and every call does to the bits
what its name says.

* `leave_assign` and `leave_unite` compare the operations in place with those that give
  a new bitmap.  They fail before they change anything.
* `CallsMean` says bit by bit what calls do to a shelf.  `WellFormed.callsMean` proves it
  for bitmaps in their normal form.
* `wellFormed_perform` is the step and `wellFormed_performAll` the run: calls keep the
  normal form of all bitmaps.  `Reachable` are the bitmaps of a run, and these are the
  well-formed ones.
* `performAll_meaning` puts this together for every shelf that calls can leave.
-/

namespace StripePruning

variable {b other : Bitmap}

namespace InPlace

/-! ## Operations in place -/

/-- Setting a bit in place leaves what setting it gives. -/
theorem leave_assign (b : Bitmap) (position : Nat) (value : Bool) :
    (assign position value).leave b
      = match b.set position value with
        | .ok changed => (changed, .ok ())
        | .error error => (b, .error error) := by
  unfold assign Bitmap.set
  show leave (if b.len ≤ position then _ else _) b = _
  by_cases hle : b.len ≤ position
  · rw [if_pos hle, if_neg (Nat.not_lt.2 hle)]
    rfl
  · rw [if_neg hle, if_pos (Nat.lt_of_not_le hle)]
    rfl

/-- Two operations in a row, of which the first one succeeds. -/
theorem leave_bind {first : InPlace Unit} {next : Unit → InPlace Unit} {left : Bitmap}
    (h : first.leave b = (left, .ok ())) : leave (first >>= next) b = (next ()).leave left := by
  rcases hrun : first.run.run b with ⟨outcome, rest⟩
  rw [leave, hrun] at h
  obtain ⟨rfl, rfl⟩ : rest = left ∧ outcome = .ok () := by simpa using h
  have hbind : (first >>= next).run.run b = (next ()).run.run rest := by
    show StateT.bind first.run (ExceptT.bindCont next) b = _
    rw [StateT.bind, show first.run b = _ from hrun]
    rfl
  rw [leave, hbind, leave]

/-- Joining words one after the other changes the first `count` words. -/
theorem leave_uniteWords (other : Bitmap) (count : Nat) (b : Bitmap) :
    ∃ words, leave ((List.range count).forM (uniteWord other)) b = ({ b with words }, .ok ()) ∧
      words.size = b.words.size ∧
      ∀ i (hi : i < words.size) (hi' : i < b.words.size), words[i]
        = if i < count then b.words[i] ||| other.words.getD i 0 else b.words[i] := by
  induction count with
  | zero =>
    refine ⟨b.words, rfl, rfl, fun i hi hi' => ?_⟩
    rw [if_neg (Nat.not_lt_zero i)]
  | succ count ih =>
    obtain ⟨words, hrun, hsize, hwords⟩ := ih
    refine ⟨words.modify count (· ||| other.words.getD count 0), ?_, ?_, ?_⟩
    · rw [List.range_succ, List.forM_eq_forM, List.forM_append, ← List.forM_eq_forM]
      exact leave_bind hrun
    · rw [Array.size_modify, hsize]
    · intro i hi hi'
      rw [Array.getElem_modify, hwords i (hsize ▸ hi') hi']
      by_cases heq : count = i
      · subst heq
        simp
      · have hlt : i < count + 1 ↔ i < count := by omega
        simp [heq, hlt]

theorem leave_unite (hsize : b.len = other.len → b.words.size = other.words.size) :
    (unite other).leave b
      = match b.union other with
        | .ok joined => (joined, .ok ())
        | .error error => (b, .error error) := by
  unfold unite Bitmap.union
  show leave (ExceptT.mk (pure (b.checkLength other)) >>= _) b = _
  by_cases hlen : b.len = other.len
  · have hcheck : b.checkLength other = .ok () := if_pos hlen
    obtain ⟨words, hrun, hwords, hget⟩ := leave_uniteWords other b.words.size b
    have hjoined : words = Array.zipWith (· ||| ·) b.words other.words := by
      have hsizes := hsize hlen
      apply Array.ext
      · simp [hwords, hsizes]
      · intro i hi hi'
        have hib : i < b.words.size := hwords ▸ hi
        have hio : i < other.words.size := hsizes ▸ hib
        rw [hget i hi hib, if_pos hib, Array.getElem_zipWith]
        simp [hio]
    have hmin : min b.words.size other.words.size = b.words.size := by
      have hsizes := hsize hlen
      omega
    rw [hcheck, hmin, ← hjoined]
    exact hrun
  · have hcheck : b.checkLength other = .error (.lengthMismatch b.len other.len) := if_neg hlen
    rw [hcheck]
    rfl

end InPlace

namespace Shelf

variable {shelf : Shelf} {place position : Nat}

/-! ## What calls do -/

/-- All bitmaps on the shelf are in their normal form. -/
def WellFormed (shelf : Shelf) : Prop :=
  ∀ b, b ∈ shelf → b.WellFormed

/-- What the calls do to the bitmaps of a shelf, bit by bit.  A call changes the bitmap at
its place and no other, and a call that fails changes none. -/
structure CallsMean (shelf : Shelf) : Prop where
  zeros (len : Nat) :
    ∃ made, shelf.perform (.zeros len) = (shelf ++ [made], .ok ()) ∧ made.len = len ∧
      ∀ p, made.get p = false
  ofFn (len : Nat) (bits : Nat → Bool) :
    ∃ made, shelf.perform (.ofFn len bits) = (shelf ++ [made], .ok ()) ∧ made.len = len ∧
      ∀ p, made.get p = (decide (p < len) && bits p)
  copy {place : Nat} {b : Bitmap} : shelf[place]? = some b →
    shelf.perform (.copy place) = (shelf ++ [b], .ok ())
  assign {place : Nat} {b : Bitmap} {position : Nat} (value : Bool) : shelf[place]? = some b →
    position < b.len →
    ∃ changed, shelf.perform (.assign place position value) = (shelf.set place changed, .ok ()) ∧
      changed.len = b.len ∧ ∀ p, changed.get p = if p = position then value else b.get p
  assign_past {place : Nat} {b : Bitmap} {position : Nat} (value : Bool) :
    shelf[place]? = some b → b.len ≤ position →
    shelf.perform (.assign place position value) = (shelf, .error (.outOfRange position b.len))
  unite {place other : Nat} {b joined : Bitmap} : shelf[place]? = some b →
    shelf[other]? = some joined → b.len = joined.len →
    ∃ changed, shelf.perform (.unite place other) = (shelf.set place changed, .ok ()) ∧
      changed.len = b.len ∧ ∀ p, changed.get p = (b.get p || joined.get p)
  difference {place other : Nat} {b removed : Bitmap} : shelf[place]? = some b →
    shelf[other]? = some removed → b.len = removed.len →
    ∃ made, shelf.perform (.difference place other) = (shelf ++ [made], .ok ()) ∧
      made.len = b.len ∧ ∀ p, made.get p = (b.get p && !removed.get p)
  mismatch {place other : Nat} {b second : Bitmap} : shelf[place]? = some b →
    shelf[other]? = some second → b.len ≠ second.len →
    shelf.perform (.unite place other) = (shelf, .error (.lengthMismatch b.len second.len)) ∧
      shelf.perform (.difference place other)
        = (shelf, .error (.lengthMismatch b.len second.len))

theorem WellFormed.of_getElem? (h : shelf.WellFormed) (hb : shelf[place]? = some b) :
    b.WellFormed :=
  h b (List.mem_of_getElem? hb)

theorem WellFormed.add (h : shelf.WellFormed) (hb : b.WellFormed) :
    WellFormed (shelf ++ [b]) := by
  intro other hother
  rw [List.mem_append, List.mem_singleton] at hother
  rcases hother with hother | rfl
  · exact h other hother
  · exact hb

theorem WellFormed.set (h : shelf.WellFormed) (hb : b.WellFormed) (place : Nat) :
    WellFormed (shelf.set place b) := by
  intro other hother
  rcases List.mem_or_eq_of_mem_set hother with hother | rfl
  · exact h other hother
  · exact hb

/-- Putting a bitmap where it is changes nothing. -/
theorem set_of_getElem? (hb : shelf[place]? = some b) : shelf.set place b = shelf := by
  obtain ⟨hlt, rfl⟩ := List.getElem?_eq_some_iff.1 hb
  exact List.set_getElem_self hlt

/-! ## One call -/

theorem perform_copy (hb : shelf[place]? = some b) :
    shelf.perform (.copy place) = (shelf ++ [b], .ok ()) := by
  rw [perform, hb]
  rfl

theorem perform_assign_of_lt (h : shelf.WellFormed) (hb : shelf[place]? = some b) (value : Bool)
    (hlt : position < b.len) :
    ∃ changed, shelf.perform (.assign place position value) = (shelf.set place changed, .ok ()) ∧
      changed.WellFormed ∧ changed.len = b.len ∧
      ∀ p, changed.get p = if p = position then value else b.get p := by
  obtain ⟨changed, hset, hchanged⟩ := (h.of_getElem? hb).set_of_lt value hlt
  refine ⟨changed, ?_, hchanged⟩
  simp only [perform, hb, change, InPlace.leave_assign, hset]

theorem perform_assign_of_le (hb : shelf[place]? = some b) (value : Bool)
    (hle : b.len ≤ position) :
    shelf.perform (.assign place position value)
      = (shelf, .error (.outOfRange position b.len)) := by
  simp only [perform, hb, change, InPlace.leave_assign, Bitmap.set_of_le value hle,
    set_of_getElem? hb]

/-- Bitmaps of one length have as many words. -/
private theorem size_words_eq (hb : b.WellFormed) (hother : other.WellFormed)
    (hlen : b.len = other.len) : b.words.size = other.words.size := by
  rw [hb.1, hother.1, hlen]

theorem perform_unite_of_eq (h : shelf.WellFormed) {second : Nat} (hb : shelf[place]? = some b)
    (hother : shelf[second]? = some other) (hlen : b.len = other.len) :
    shelf.perform (.unite place second)
      = (shelf.set place (.ofFn b.len fun p => b.get p || other.get p), .ok ()) := by
  have hwf := h.of_getElem? hb
  have hwfOther := h.of_getElem? hother
  simp only [perform, hb, hother, change, InPlace.leave_unite (size_words_eq hwf hwfOther),
    (hwf.combine hwfOther hlen).1]

theorem perform_difference_of_eq (h : shelf.WellFormed) {second : Nat}
    (hb : shelf[place]? = some b) (hother : shelf[second]? = some other)
    (hlen : b.len = other.len) :
    shelf.perform (.difference place second)
      = (shelf ++ [.ofFn b.len fun p => b.get p && !other.get p], .ok ()) := by
  have hwf := h.of_getElem? hb
  have hwfOther := h.of_getElem? hother
  simp only [perform, hb, hother, Shelf.add, (hwf.combine hwfOther hlen).2]

theorem perform_of_ne {second : Nat} (hb : shelf[place]? = some b)
    (hother : shelf[second]? = some other) (hlen : b.len ≠ other.len) :
    shelf.perform (.unite place second) = (shelf, .error (.lengthMismatch b.len other.len)) ∧
      shelf.perform (.difference place second)
        = (shelf, .error (.lengthMismatch b.len other.len)) := by
  have hsize (heq : b.len = other.len) : b.words.size = other.words.size := absurd heq hlen
  constructor
  · simp only [perform, hb, hother, change, InPlace.leave_unite hsize,
      (Bitmap.combine_of_ne hlen).1, set_of_getElem? hb]
  · simp only [perform, hb, hother, Shelf.add, (Bitmap.combine_of_ne hlen).2]

theorem WellFormed.callsMean (h : shelf.WellFormed) : shelf.CallsMean where
  zeros len := ⟨.zeros len, rfl, rfl, fun p => Bitmap.get_zeros len p⟩
  ofFn len bits := ⟨.ofFn len bits, rfl, rfl, fun p => Bitmap.get_ofFn len bits p⟩
  copy := perform_copy
  assign value hb hlt := by
    obtain ⟨changed, hperform, -, hchanged⟩ := perform_assign_of_lt h hb value hlt
    exact ⟨changed, hperform, hchanged⟩
  assign_past value hb hle := perform_assign_of_le hb value hle
  unite {place other b joined} hb hother hlen := by
    refine ⟨_, perform_unite_of_eq h hb hother hlen, rfl, fun p => ?_⟩
    by_cases hp : p < b.len
    · simp [hp]
    · simp [hp, Bitmap.get_eq_stored, ← hlen]
  difference {place other b removed} hb hother hlen := by
    refine ⟨_, perform_difference_of_eq h hb hother hlen, rfl, fun p => ?_⟩
    by_cases hp : p < b.len
    · simp [hp]
    · simp [hp, Bitmap.get_eq_stored]
  mismatch := perform_of_ne

/-! ## A run of calls -/

/-- A call keeps the normal form of all bitmaps. -/
theorem wellFormed_perform (h : shelf.WellFormed) (call : BitmapCall) :
    WellFormed (shelf.perform call).1 := by
  cases call with
  | zeros len => exact h.add (Bitmap.wellFormed_zeros len)
  | ofFn len bits => exact h.add (Bitmap.wellFormed_ofFn len bits)
  | copy place =>
    cases hb : shelf[place]? with
    | none => simpa only [perform, hb] using h
    | some b =>
      rw [perform_copy hb]
      exact h.add (h.of_getElem? hb)
  | assign place position value =>
    cases hb : shelf[place]? with
    | none => simpa only [perform, hb] using h
    | some b =>
      by_cases hlt : position < b.len
      · obtain ⟨changed, hperform, hchanged, -⟩ := perform_assign_of_lt h hb value hlt
        rw [hperform]
        exact h.set hchanged place
      · rw [perform_assign_of_le hb value (Nat.le_of_not_lt hlt)]
        exact h
  | unite place other =>
    cases hb : shelf[place]? with
    | none => simpa only [perform, hb] using h
    | some b =>
      cases hother : shelf[other]? with
      | none => simpa only [perform, hb, hother] using h
      | some joined =>
        by_cases hlen : b.len = joined.len
        · rw [perform_unite_of_eq h hb hother hlen]
          exact h.set (Bitmap.wellFormed_ofFn _ _) place
        · rw [(perform_of_ne hb hother hlen).1]
          exact h
  | difference place other =>
    cases hb : shelf[place]? with
    | none => simpa only [perform, hb] using h
    | some b =>
      cases hother : shelf[other]? with
      | none => simpa only [perform, hb, hother] using h
      | some removed =>
        by_cases hlen : b.len = removed.len
        · rw [perform_difference_of_eq h hb hother hlen]
          exact h.add (Bitmap.wellFormed_ofFn _ _)
        · rw [(perform_of_ne hb hother hlen).2]
          exact h

theorem wellFormed_performAll (calls : List BitmapCall) : WellFormed (performAll calls) := by
  have hrun (calls : List BitmapCall) : ∀ shelf : Shelf, shelf.WellFormed →
      WellFormed (calls.foldl (fun shelf call => (perform shelf call).1) shelf) := by
    induction calls with
    | nil => exact fun shelf h => h
    | cons call rest ih => exact fun shelf h => ih _ (wellFormed_perform h call)
  exact hrun calls [] fun b hb => absurd hb (List.not_mem_nil)

end Shelf

namespace Bitmap

/-- Some calls leave the bitmap on their shelf. -/
def Reachable (b : Bitmap) : Prop :=
  ∃ calls, b ∈ Shelf.performAll calls

theorem reachable_iff : b.Reachable ↔ b.WellFormed := by
  constructor
  · intro h
    obtain ⟨calls, hb⟩ := h
    exact Shelf.wellFormed_performAll calls b hb
  · intro h
    refine ⟨[.ofFn b.len b.get], ?_⟩
    show b ∈ [ofFn b.len b.get]
    rw [← h.eq_ofFn]
    exact List.mem_singleton_self b

theorem Reachable.wellFormed (h : b.Reachable) : b.WellFormed :=
  reachable_iff.1 h

end Bitmap

namespace Shelf

/-- Whatever calls were made and whether or not they failed, the bitmaps that are left have the
words that their lengths need and no set bit past their ends, so that bits past the end read as
clear, the count is the number of set bits, and bitmaps are equal exactly if they have the same
length and the same bits.  Every further call does to the bits what its name says. -/
theorem performAll_meaning {calls : List BitmapCall} {shelf : Shelf}
    (h : performAll calls = shelf) :
    shelf.CallsMean ∧
      ∀ b, b ∈ shelf →
        b.words.size = (b.len + 63) / 64 ∧
        (∀ p, b.len ≤ p → Word.test (b.words.getD (p / 64) 0) p = false) ∧
        (∀ p, b.len ≤ p → b.get p = false) ∧
        b.count = ((Finset.range b.len).filter fun p => b.get p = true).card ∧
        ∀ other, other ∈ shelf →
          (b = other ↔ b.len = other.len ∧ ∀ p, b.get p = other.get p) := by
  have hwf : shelf.WellFormed := h ▸ wellFormed_performAll calls
  refine ⟨hwf.callsMean, fun b hb => ?_⟩
  have hbwf := hwf b hb
  refine ⟨hbwf.1, hbwf.2, ?_, hbwf.count_eq_card, ?_⟩
  · intro p hp
    have hlt : ¬ p < b.len := Nat.not_lt.2 hp
    simp [Bitmap.get_eq_stored, hlt]
  · intro other hother
    constructor
    · rintro rfl
      exact ⟨rfl, fun p => rfl⟩
    · intro heq
      exact hbwf.ext (hwf other hother) heq.1 heq.2

/-- A bit is set in the second word of one of two bitmaps, a bit past the end of the other one
cannot be, and a third bitmap is too short to be joined. -/
theorem performAll_meaning_failing_calls :
    ∃ shelf, performAll [.zeros 70, .copy 0, .assign 0 64 true, .assign 1 70 true, .zeros 64,
        .unite 0 2] = shelf ∧
      shelf = [⟨70, #[0, 1]⟩, ⟨70, #[0, 0]⟩, ⟨64, #[0]⟩] ∧
      ((Finset.range 70).filter fun p => Bitmap.get ⟨70, #[0, 1]⟩ p = true).card = 1 ∧
      shelf.perform (.assign 1 70 true) = (shelf, .error (.outOfRange 70 70)) ∧
      shelf.perform (.unite 0 2) = (shelf, .error (.lengthMismatch 70 64)) ∧
      ∃ changed, shelf.perform (.unite 1 0) = (shelf.set 1 changed, .ok ()) ∧
        changed.get 64 = true := by
  have hshelf : performAll [.zeros 70, .copy 0, .assign 0 64 true, .assign 1 70 true, .zeros 64,
      .unite 0 2] = [⟨70, #[0, 1]⟩, ⟨70, #[0, 0]⟩, ⟨64, #[0]⟩] := by decide +kernel
  obtain ⟨hmeaning, hbits⟩ := performAll_meaning hshelf
  have hfirst : [⟨70, #[0, 1]⟩, ⟨70, #[0, 0]⟩, ⟨64, #[0]⟩][0]? = some (⟨70, #[0, 1]⟩ : Bitmap) := rfl
  have hsecond : [⟨70, #[0, 1]⟩, ⟨70, #[0, 0]⟩, ⟨64, #[0]⟩][1]? = some (⟨70, #[0, 0]⟩ : Bitmap) := rfl
  have hthird : [⟨70, #[0, 1]⟩, ⟨70, #[0, 0]⟩, ⟨64, #[0]⟩][2]? = some (⟨64, #[0]⟩ : Bitmap) := rfl
  obtain ⟨-, -, -, hcount, -⟩ := hbits ⟨70, #[0, 1]⟩ (List.mem_of_getElem? hfirst)
  obtain ⟨changed, hunite, -, hget⟩ := hmeaning.unite hsecond hfirst rfl
  refine ⟨_, hshelf, rfl, ?_, hmeaning.assign_past true hsecond (Nat.le_refl 70),
    (hmeaning.mismatch hfirst hthird (by decide)).1, changed, hunite, ?_⟩
  · rw [← hcount]
    decide +kernel
  · rw [hget]
    decide +kernel

end Shelf

end StripePruning
