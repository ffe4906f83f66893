import StripePruning.Proofs.Bitmap.InPlace

/-!
# Walking over the set positions

A cursor is asked for one position after the other, and copies of it are asked on their
own.  This module says which answers they give.

* `Spells` compares a cursor with the list of the positions that it has left.
  `Spells.next` is one step: the answer is the head of the list and the tail is left.
* `Spells.after` is a run of steps and `Spells.toList` a walk to the end.
* `search_eq_next` counts the turns that a step takes, over empty words too.
* `At` compares several cursors with the numbers of positions that they have passed.
  `At.perform` is one call and `at_performAll` a run of calls.
* `Reachable.walk_ascending` puts this together for every bitmap that calls can reach.
-/

namespace StripePruning

namespace Word

/-- Clearing the lowest set bit clears this bit and no other. -/
theorem test_clearLowest {word : UInt64} (h : word ≠ 0) {bit : Nat} (hbit : bit < wordBits) :
    test (clearLowest word) bit = (test word bit && decide (bit ≠ lowest word)) := by
  obtain ⟨hlt, hset, hbelow⟩ := test_lowest h
  have htest : ∀ i, i < wordBits → test word i = word.toNat.testBit i := by
    intro i hi
    rw [test_eq_testBit, Nat.mod_eq_of_lt hi]
  rw [htest _ hlt] at hset
  have hclear : ∀ i, i < lowest word → word.toNat.testBit i = false := by
    intro i hi
    rw [← htest i (by omega)]
    exact hbelow i hi
  have hpos : 0 < word.toNat := by
    apply Nat.pos_of_ne_zero
    intro hzero
    exact h (UInt64.toNat_inj.1 hzero)
  have hpred : (word - 1).toNat = word.toNat - 1 := by
    apply UInt64.toNat_sub_of_le
    rw [UInt64.le_iff_toNat_le]
    exact hpos
  rw [clearLowest, test_and, test_eq_testBit (word - 1), Nat.mod_eq_of_lt hbit, hpred,
    testBit_pred hset hclear, htest bit hbit]
  rcases Nat.lt_trichotomy bit (lowest word) with hless | rfl | hmore
  · simp [hless, hclear bit hless]
  · simp
  · simp [Nat.not_lt_of_gt hmore, Nat.ne_of_gt hmore]

end Word

namespace Bitmap

/-- The positions of all set bits in ascending order. -/
def ascending (b : Bitmap) : List Nat :=
  (List.range b.len).filter b.get

theorem mem_ascending {b : Bitmap} {p : Nat} :
    p ∈ b.ascending ↔ p < b.len ∧ b.get p = true := by
  rw [ascending, List.mem_filter, List.mem_range]

theorem pairwise_ascending (b : Bitmap) : b.ascending.Pairwise (· < ·) :=
  List.pairwise_lt_range.filter _

end Bitmap

namespace Cursor

variable {c : Cursor} {list : List Nat}

/-! ## One step -/

/-- A cursor keeps its words. -/
theorem words_next (c : Cursor) : c.next.2.words = c.words := by
  fun_induction Cursor.next c with
  | case1 c answer rest hturn =>
    rcases turn_eq_some_iff.1 hturn with ⟨-, -, rfl⟩ | ⟨-, -, -, rfl⟩
    · rfl
    · rfl
  | case2 c rest hturn ih =>
    obtain ⟨-, hmore, rfl⟩ := turn_eq_none_iff.1 hturn
    exact ih

/-- What a step leaves: all positions but the one that it answers. -/
theorem left_next (c : Cursor) (p : Nat) :
    c.next.2.Left p ↔ c.Left p ∧ c.next.1 ≠ some p := by
  fun_induction Cursor.next c with
  | case1 c answer rest hturn =>
    rcases turn_eq_some_iff.1 hturn with ⟨hcurrent, rfl, rfl⟩ | ⟨hzero, hmore, rfl, rfl⟩
    case inr =>
      have hlast : ¬ c.wordIndex + 1 + 1 < c.words.size := by omega
      constructor
      · exact fun h => absurd h
          (not_left_of_last (c := { c with wordIndex := c.wordIndex + 1 }) hzero hlast p)
      · exact fun h => absurd h.1 (not_left_of_last hzero hmore p)
    have hp : p % wordBits < wordBits := Nat.mod_lt p (by decide)
    have hclear := Word.test_clearLowest hcurrent hp
    rw [Word.test_mod, Word.test_mod] at hclear
    have hsplit := Nat.div_add_mod' p wordBits
    have hlowest := (Word.test_lowest hcurrent).1
    have hbits : wordBits = 64 := rfl
    simp only [Left, hclear, Bool.and_eq_true, decide_eq_true_eq, ne_eq, Option.some_inj]
    constructor
    · rintro (⟨hindex, hset, hother⟩ | ⟨hindex, hset⟩)
      · refine ⟨Or.inl ⟨hindex, hset⟩, fun heq => hother ?_⟩
        rw [hindex] at hsplit
        omega
      · refine ⟨Or.inr ⟨hindex, hset⟩, fun heq => ?_⟩
        rw [hbits] at heq hlowest hindex
        omega
    · rintro ⟨⟨hindex, hset⟩ | ⟨hindex, hset⟩, hother⟩
      · refine Or.inl ⟨hindex, hset, fun heq => hother ?_⟩
        rw [← heq, ← hindex]
        exact hsplit
      · exact Or.inr ⟨hindex, hset⟩
  | case2 c rest hturn ih =>
    obtain ⟨hcurrent, hmore, rfl⟩ := turn_eq_none_iff.1 hturn
    rwa [left_skip hcurrent hmore] at ih

/-- The positions that a cursor has left, in ascending order. -/
structure Spells (c : Cursor) (list : List Nat) : Prop where
  ascending : list.Pairwise (· < ·)
  mem_iff (p : Nat) : p ∈ list ↔ c.Left p

/-- A step answers the first position and leaves the others. -/
theorem Spells.next (h : c.Spells list) :
    c.next.1 = list.head? ∧ c.next.2.Spells list.tail := by
  obtain ⟨hleast, hnone⟩ := c.next_isLeast
  cases list with
  | nil =>
    have hleft (p : Nat) : ¬ c.Left p := fun hp => List.not_mem_nil ((h.mem_iff p).2 hp)
    constructor
    · cases hnext : c.next.1 with
      | none => rfl
      | some p => exact absurd (hleast p hnext).1 (hleft p)
    · refine ⟨List.Pairwise.nil, fun p => ?_⟩
      rw [left_next]
      exact ⟨fun hp => absurd hp List.not_mem_nil, fun hp => absurd hp.1 (hleft p)⟩
  | cons first rest =>
    have hfirst : c.Left first := (h.mem_iff first).1 List.mem_cons_self
    obtain ⟨hbelow, hrest⟩ := List.pairwise_cons.1 h.ascending
    have hnext : c.next.1 = some first := by
      cases hnext : c.next.1 with
      | none => exact absurd hfirst (hnone hnext first)
      | some p =>
        obtain ⟨hp, hlower⟩ := hleast p hnext
        have hle : p ≤ first := hlower hfirst
        rcases List.mem_cons.1 ((h.mem_iff p).2 hp) with heq | hmem
        · rw [heq]
        · have hlt := hbelow p hmem
          omega
    refine ⟨hnext, hrest, fun p => ?_⟩
    show p ∈ rest ↔ _
    rw [left_next, hnext, ← h.mem_iff, List.mem_cons, ne_eq, Option.some_inj]
    constructor
    · intro hp
      have hlt := hbelow p hp
      exact ⟨Or.inr hp, by omega⟩
    · rintro ⟨heq | hp, hne⟩
      · exact absurd heq.symm hne
      · exact hp

/-! ## Many steps -/

/-- Steps leave the list without as many positions. -/
theorem Spells.after (h : c.Spells list) (count : Nat) :
    (c.after count).Spells (list.drop count) := by
  induction count generalizing c list with
  | zero => exact h
  | succ count ih =>
    rw [← List.drop_tail]
    exact ih h.next.2

/-- The answer of a step is found at the head of what is left. -/
theorem Spells.next_drop {count : Nat} (h : c.Spells (list.drop count)) :
    c.next.1 = list[count]? := by
  rw [h.next.1, List.head?_drop]

theorem words_after (count : Nat) (c : Cursor) : (c.after count).words = c.words := by
  induction count generalizing c with
  | zero => rfl
  | succ count ih => exact (ih _).trans c.words_next

theorem Spells.takeFrom (h : c.Spells list) (limit : Nat) (taken : Array Nat) :
    (takeFrom limit c taken).1.toList = taken.toList ++ list.take limit := by
  induction limit generalizing c list taken with
  | zero => simp [Cursor.takeFrom]
  | succ limit ih =>
    obtain ⟨hnext, hrest⟩ := h.next
    rw [Cursor.takeFrom]
    cases list with
    | nil =>
      rcases hstep : c.next with ⟨answer, rest⟩
      rw [hstep] at hnext
      obtain rfl : answer = none := hnext
      simp
    | cons first others =>
      rcases hstep : c.next with ⟨answer, rest⟩
      rw [hstep] at hnext hrest
      obtain rfl : answer = some first := hnext
      show (Cursor.takeFrom limit rest (taken.push first)).1.toList = _
      rw [ih hrest]
      simp

/-- A cursor has no more positions left than its bound. -/
theorem Spells.length_le (h : c.Spells list) : list.length ≤ c.bound := by
  have hbits : wordBits = 64 := rfl
  have hnodup : list.Nodup := h.ascending.imp fun hlt => Nat.ne_of_lt hlt
  -- What is left lies in the current word or in a word that is there.
  have hsubset : list.toFinset ⊆ Finset.Ico (64 * c.wordIndex) (64 * c.wordIndex + 64)
      ∪ Finset.range (64 * c.words.size) := by
    intro p hp
    rw [Finset.mem_union, Finset.mem_Ico, Finset.mem_range]
    rcases (h.mem_iff p).1 (List.mem_toFinset.1 hp) with ⟨hindex, -⟩ | ⟨-, hset⟩
    · rw [hbits] at hindex
      exact Or.inl (by omega)
    · have hlt : p / wordBits < c.words.size := by
        apply Nat.lt_of_not_le
        intro hle
        rw [Array.getD_eq_getD_getElem?, Array.getElem?_eq_none hle, Option.getD_none,
          Word.test_zero] at hset
        exact absurd hset (by decide)
      rw [hbits] at hlt
      exact Or.inr (by omega)
  have hcard := (Finset.card_le_card hsubset).trans (Finset.card_union_le _ _)
  rw [List.toFinset_card_of_nodup hnodup, Nat.card_Ico, Finset.card_range] at hcard
  show list.length ≤ (c.words.size + 1) * 64
  omega

/-- A walk to the end finds all positions that are left. -/
theorem Spells.toList (h : c.Spells list) : c.toList = list := by
  show (Cursor.takeFrom c.bound c #[]).1.toList = list
  rw [h.takeFrom, List.nil_append, List.take_of_length_le h.length_le]

/-! ## The turns of a step -/

/-- A step takes one turn for every empty word on its way and one more to end. -/
theorem search_eq_next {turns : Nat} (c : Cursor) (h : c.words.size - c.wordIndex < turns) :
    c.search turns = some c.next := by
  obtain ⟨turns, rfl⟩ : ∃ fewer, turns = fewer + 1 := ⟨turns - 1, by omega⟩
  fun_induction Cursor.next c generalizing turns with
  | case1 c answer rest hturn => rw [search, hturn]
  | case2 c rest hturn ih =>
    obtain ⟨-, hmore, rfl⟩ := turn_eq_none_iff.1 hturn
    obtain ⟨turns, rfl⟩ : ∃ fewer, turns = fewer + 1 := ⟨turns - 1, by omega⟩
    rw [search, hturn]
    exact ih turns (by show c.words.size - (c.wordIndex + 1) < turns + 1; omega)

end Cursor

namespace Walk

/-! ## Several cursors -/

/-- The numbers of positions that cursors have passed, after a call: the cursor that is asked
passes one more, and a copy has passed as many as its original. -/
def passed (counts : List Nat) : CursorCall → List Nat
  | .next place => counts.modify place (· + 1)
  | .copy place => counts ++ counts[place]?.toList

/-- The numbers of positions that the cursors of a run have passed. -/
def passedAll (calls : List CursorCall) : List Nat :=
  calls.foldl passed [0]

/-- Each cursor has left what follows the positions that it has passed. -/
structure At (list : List Nat) (walk : Walk) (counts : List Nat) : Prop where
  length_eq : walk.length = counts.length
  spells {place : Nat} {c : Cursor} {count : Nat} : walk[place]? = some c →
    counts[place]? = some count → c.Spells (list.drop count)

variable {list counts : List Nat} {walk : Walk} {place : Nat} {c : Cursor}

theorem At.exists_count (h : At list walk counts) (hc : walk[place]? = some c) :
    ∃ count, counts[place]? = some count := by
  obtain ⟨hlt, -⟩ := List.getElem?_eq_some_iff.1 hc
  exact ⟨_, List.getElem?_eq_getElem (h.length_eq ▸ hlt)⟩

theorem perform_next (hc : walk[place]? = some c) :
    walk.perform (.next place) = (walk.set place c.next.2, c.next.1) := by
  rw [perform, hc]

theorem perform_copy (hc : walk[place]? = some c) :
    walk.perform (.copy place) = (walk ++ [c], none) := by
  rw [perform, hc]

/-- A call keeps every cursor behind the positions that it has passed. -/
theorem At.perform (h : At list walk counts) (call : CursorCall) :
    At list (walk.perform call).1 (passed counts call) := by
  have hlength := h.length_eq
  cases call with
  | next place =>
    cases hc : walk[place]? with
    | none =>
      have hnone : counts.modify place (· + 1) = counts := by
        rw [List.getElem?_eq_none_iff] at hc
        exact List.modify_eq_self (by omega)
      rw [passed, hnone, Walk.perform, hc]
      exact h
    | some c =>
      obtain ⟨count, hcount⟩ := h.exists_count hc
      rw [passed, perform_next hc]
      refine ⟨by rw [List.length_set, List.length_modify, hlength], ?_⟩
      intro other d n hd hn
      rw [List.getElem?_modify] at hn
      by_cases heq : place = other
      · subst heq
        rw [hcount, Option.map_eq_map, Option.map_some, if_pos rfl] at hn
        rw [List.getElem?_set_self (List.getElem?_eq_some_iff.1 hc).1] at hd
        obtain rfl := Option.some.inj hd
        obtain rfl := Option.some.inj hn
        have hnext := (h.spells hc hcount).next.2
        rwa [List.tail_drop] at hnext
      · rw [List.getElem?_set_ne heq] at hd
        exact h.spells hd (by simpa [heq] using hn)
  | copy place =>
    cases hc : walk[place]? with
    | none =>
      have hnone : counts[place]? = none := by
        rw [List.getElem?_eq_none_iff] at hc ⊢
        omega
      rw [passed, hnone, Walk.perform, hc]
      simpa using h
    | some c =>
      obtain ⟨count, hcount⟩ := h.exists_count hc
      rw [passed, perform_copy hc, hcount]
      refine ⟨by simp [hlength], ?_⟩
      intro other d n hd hn
      by_cases hlt : other < walk.length
      · rw [List.getElem?_append_left hlt] at hd
        rw [List.getElem?_append_left (hlength ▸ hlt)] at hn
        exact h.spells hd hn
      · have hlast := (List.getElem?_eq_some_iff.1 hd).1
        rw [List.length_append, List.length_singleton] at hlast
        obtain rfl : other = walk.length := by omega
        rw [List.getElem?_concat_length] at hd
        rw [hlength] at hn
        simp only [Option.toList_some, List.getElem?_concat_length] at hn
        obtain rfl := Option.some.inj hd
        obtain rfl := Option.some.inj hn
        exact h.spells hc hcount

/-- A run of calls keeps every cursor behind the positions that it has passed. -/
theorem at_performAll (h : c.Spells list) (calls : List CursorCall) :
    At list (performAll c calls) (passedAll calls) := by
  have hrun (calls : List CursorCall) : ∀ (walk : Walk) (counts : List Nat), At list walk counts →
      At list (calls.foldl (fun walk call => (Walk.perform walk call).1) walk)
        (calls.foldl passed counts) := by
    induction calls with
    | nil => exact fun _ _ h => h
    | cons call rest ih => exact fun _ _ h => ih _ _ (h.perform call)
  refine hrun calls [c] [0] ⟨rfl, ?_⟩
  intro place d count hd hcount
  obtain ⟨hlt, rfl⟩ := List.getElem?_eq_some_iff.1 hd
  obtain rfl : place = 0 := by
    rw [List.length_singleton] at hlt
    omega
  obtain rfl : 0 = count := Option.some.inj hcount
  exact h

end Walk

namespace Bitmap

variable {b : Bitmap}

/-- The cursor of a bitmap has all its set positions left. -/
theorem WellFormed.spells (h : b.WellFormed) : b.cursor.Spells b.ascending where
  ascending := b.pairwise_ascending
  mem_iff p := by
    rw [mem_ascending, h.left_cursor_iff, get_eq_stored]
    simp

theorem WellFormed.ones_eq (h : b.WellFormed) : b.ones = b.ascending :=
  h.spells.toList

/-- A cursor that has been asked any number of times has left the set positions in ascending
order without as many at the front.  Every answer comes after no more turns than there are words,
and one; after the last position all answers are that there is none.  Copies are asked on their
own: whatever calls were made, each cursor has left what follows the positions that it and its
originals have passed, and asking it leaves all others as they were. -/
theorem Reachable.walk_ascending (h : b.Reachable) :
    b.ascending.Pairwise (· < ·) ∧
      (∀ p, p ∈ b.ascending ↔ p < b.len ∧ b.get p = true) ∧
      (∀ count, (b.cursor.after count).toList = b.ascending.drop count ∧
        (b.cursor.after count).next.1 = b.ascending[count]? ∧
        (b.cursor.after count).search (b.words.size + 1) = some (b.cursor.after count).next) ∧
      (∀ count later, count ≤ later → (b.cursor.after count).next.1 = none →
        (b.cursor.after later).next.1 = none) ∧
      ∀ calls, (Walk.performAll b.cursor calls).length = (Walk.passedAll calls).length ∧
        ∀ place c passed, (Walk.performAll b.cursor calls)[place]? = some c →
          (Walk.passedAll calls)[place]? = some passed →
          c.toList = b.ascending.drop passed ∧
          (Walk.performAll b.cursor calls).perform (.next place)
            = ((Walk.performAll b.cursor calls).set place c.next.2, b.ascending[passed]?) ∧
          (Walk.performAll b.cursor calls).perform (.copy place)
            = (Walk.performAll b.cursor calls ++ [c], none) := by
  have hspells := h.wellFormed.spells
  have hnext (count : Nat) : (b.cursor.after count).next.1 = b.ascending[count]? :=
    (hspells.after count).next_drop
  refine ⟨b.pairwise_ascending, fun p => mem_ascending, fun count => ⟨?_, hnext count, ?_⟩, ?_, ?_⟩
  · exact (hspells.after count).toList
  · apply Cursor.search_eq_next
    rw [Cursor.words_after]
    show b.words.size - _ < b.words.size + 1
    omega
  · intro count later hle hnone
    rw [hnext, List.getElem?_eq_none_iff] at hnone ⊢
    omega
  · intro calls
    have hat := Walk.at_performAll hspells calls
    refine ⟨hat.length_eq, fun place c passed hc hpassed => ?_⟩
    have hc' := hat.spells hc hpassed
    refine ⟨hc'.toList, ?_, Walk.perform_copy hc⟩
    rw [Walk.perform_next hc, hc'.next_drop]

/-- Three positions in three of four words. -/
def threePositions : Bitmap :=
  ofFn 200 fun p => p == 3 || p == 64 || p == 199

/-- A copy made behind the first position walks on to the end, and the original then still
answers the second one. -/
theorem Reachable.walk_ascending_copied :
    threePositions.Reachable ∧ (threePositions.cursor.after 1).toList = [64, 199] ∧
      (threePositions.cursor.after 4).next.1 = none ∧
      ∃ c, (Walk.performAll threePositions.cursor
          [.next 0, .copy 0, .next 1, .next 1, .next 1])[0]? = some c ∧
        c.toList = [64, 199] := by
  have hreachable : threePositions.Reachable := reachable_iff.2 (wellFormed_ofFn _ _)
  have hascending : threePositions.ascending = [3, 64, 199] := by decide +kernel
  obtain ⟨-, -, hafter, -, hcalls⟩ := hreachable.walk_ascending
  obtain ⟨hlength, hwalk⟩ := hcalls [.next 0, .copy 0, .next 1, .next 1, .next 1]
  have hpassed : Walk.passedAll [.next 0, .copy 0, .next 1, .next 1, .next 1] = [1, 4] := rfl
  rw [hpassed] at hlength hwalk
  have hplace : 0 < (Walk.performAll threePositions.cursor
      [.next 0, .copy 0, .next 1, .next 1, .next 1]).length := hlength ▸ Nat.zero_lt_two
  have hc := List.getElem?_eq_getElem hplace
  refine ⟨hreachable, ?_, ?_, _, hc, ?_⟩
  · rw [(hafter 1).1, hascending]
    rfl
  · rw [(hafter 4).2.1, hascending]
    rfl
  · rw [(hwalk 0 _ 1 hc rfl).1, hascending]
    rfl

end Bitmap

end StripePruning
