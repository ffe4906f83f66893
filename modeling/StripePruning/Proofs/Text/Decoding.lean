import Mathlib.Data.List.Basic
import StripePruning.Text.Decoding

/-!
# Texts and their bytes

A text can be cut as it is or byte by byte, and its bytes are read piece by piece.  This
module shows that all of this comes to the same.

* `cutBehind_append` cuts a list in two parts if the first one ends in a mark, and
  `cutBehind_of_unmarked` says when there is nothing to cut.
* `bytesOf` are the bytes of a text.  `textOf?_eq_some_iff` says that they and no others
  are read as the text.
* `cutBehind_bytesOf` says that a text may be cut at its line feeds before or after it
  becomes bytes, since no other character has the byte of a line feed.
* `textsOf_append` says what is read up to a piece that is not text.
-/

namespace StripePruning

section Pieces

variable {α : Type} {isMark : α → Bool} {front back list piece : List α}
  {pieces : List (List α)}

/-! ## Pieces -/

/-- A list that is empty or ends in a mark. -/
def EndsInMark (isMark : α → Bool) (list : List α) : Prop :=
  ∀ x, list.getLast? = some x → isMark x = true

theorem endsInMark_concat (isMark : α → Bool) {x : α} (h : isMark x = true) (list : List α) :
    EndsInMark isMark (list ++ [x]) := by
  intro y hy
  rw [List.getLast?_concat] at hy
  rwa [← Option.some_inj.mp hy]

theorem attach_of_mark (isMark : α → Bool) {x : α} (h : isMark x = true) (pieces : List (List α)) :
    attach isMark x pieces = [x] :: pieces :=
  if_pos h

theorem attach_cons (isMark : α → Bool) {x : α} (h : isMark x = false) (piece : List α)
    (pieces : List (List α)) :
    attach isMark x (piece :: pieces) = (x :: piece) :: pieces := by
  simp [attach, h]

theorem attach_nil (x : α) : attach isMark x [] = [[x]] := by
  simp [attach]

theorem cutBehind_cons (x : α) (list : List α) :
    cutBehind isMark (x :: list) = attach isMark x (cutBehind isMark list) := rfl

theorem attach_ne_nil (x : α) (pieces : List (List α)) : attach isMark x pieces ≠ [] := by
  unfold attach
  split
  · exact List.cons_ne_nil _ _
  · cases pieces <;> exact List.cons_ne_nil _ _

theorem cutBehind_eq_nil_iff : cutBehind isMark list = [] ↔ list = [] := by
  cases list with
  | nil => exact iff_of_true rfl rfl
  | cons x rest => exact iff_of_false (attach_ne_nil x _) (List.cons_ne_nil _ _)

theorem beq_eq_false_of_not_mem [BEq α] [LawfulBEq α] {mark : α} (h : mark ∉ list) :
    ∀ x ∈ list, (x == mark) = false := by
  intro x hx
  rw [beq_eq_false_iff_ne]
  exact fun heq => h (heq ▸ hx)

/-- What holds no mark joins the first piece behind it. -/
theorem cutBehind_unmarked_append (hfront : ∀ x ∈ front, isMark x = false)
    (hback : cutBehind isMark back = piece :: pieces) :
    cutBehind isMark (front ++ back) = (front ++ piece) :: pieces := by
  induction front with
  | nil => exact hback
  | cons x front ih =>
    have hrest := ih fun y hy => hfront y (List.mem_cons_of_mem x hy)
    rw [List.cons_append, cutBehind_cons, hrest, attach_cons _ (hfront x List.mem_cons_self)]
    rfl

/-- What holds no mark is one piece. -/
theorem cutBehind_of_unmarked (hlist : ∀ x ∈ list, isMark x = false) (hne : list ≠ []) :
    cutBehind isMark list = [list] := by
  cases List.eq_nil_or_concat' list with
  | inl hnil => exact absurd hnil hne
  | inr hlast =>
    obtain ⟨front, x, rfl⟩ := hlast
    refine cutBehind_unmarked_append (fun y hy => hlist y (List.mem_append_left [x] hy)) ?_
    rw [cutBehind_cons]
    exact attach_nil x

/-- What holds no mark and the mark behind it are one piece. -/
theorem cutBehind_marked {x : α} (hfront : ∀ y ∈ front, isMark y = false)
    (hx : isMark x = true) : cutBehind isMark (front ++ [x]) = [front ++ [x]] :=
  cutBehind_unmarked_append hfront (attach_of_mark _ hx [])

/-- A mark ends a piece, so what follows it is cut on its own. -/
theorem cutBehind_append (hfront : EndsInMark isMark front) (back : List α) :
    cutBehind isMark (front ++ back) = cutBehind isMark front ++ cutBehind isMark back := by
  induction front with
  | nil => rfl
  | cons x front ih =>
    rw [List.cons_append, cutBehind_cons, cutBehind_cons]
    cases front with
    | nil =>
      have hx : isMark x = true := hfront x rfl
      rw [attach_of_mark _ hx, attach_of_mark _ hx]
      rfl
    | cons y front =>
      have hrest : EndsInMark isMark (y :: front) := fun z hz =>
        hfront z (by rwa [List.getLast?_cons_cons])
      rw [ih hrest]
      cases hpieces : cutBehind isMark (y :: front) with
      | nil => exact absurd (cutBehind_eq_nil_iff.mp hpieces) (List.cons_ne_nil _ _)
      | cons piece pieces =>
        cases hx : isMark x with
        | true => simp [attach_of_mark _ hx]
        | false => simp [attach_cons _ hx]

/-- What is asked of the pieces stays the same if it was the same before, as long as it is the same
of a piece with one more element. -/
theorem map_attach_congr {β : Type} {view : List α → β} {x : α} {others : List (List α)}
    (hcons : ∀ piece other, view piece = view other → view (x :: piece) = view (x :: other))
    (h : pieces.map view = others.map view) :
    (attach isMark x pieces).map view = (attach isMark x others).map view := by
  cases hx : isMark x with
  | true => rw [attach_of_mark _ hx, attach_of_mark _ hx, List.map_cons, List.map_cons, h]
  | false =>
    cases pieces with
    | nil =>
      have hothers : others = [] := List.map_eq_nil_iff.mp h.symm
      rw [hothers]
    | cons piece pieces =>
      cases others with
      | nil => cases h
      | cons other others =>
        obtain ⟨hfirst, hrest⟩ := List.cons.inj h
        rw [attach_cons _ hx, attach_cons _ hx, List.map_cons, List.map_cons,
          hcons piece other hfirst, hrest]

/-- A list may be cut before or after its elements are written out, if only a mark is written
with a mark, and with one at its end. -/
theorem cutBehind_flatMap {β : Type} {isEnd : β → Bool} {write : α → List β}
    (hmark : ∀ x, isMark x = true →
      ∃ body y, write x = body ++ [y] ∧ (∀ z ∈ body, isEnd z = false) ∧ isEnd y = true)
    (hplain : ∀ x, isMark x = false → write x ≠ [] ∧ ∀ y ∈ write x, isEnd y = false)
    (list : List α) :
    cutBehind isEnd (list.flatMap write) = (cutBehind isMark list).map (·.flatMap write) := by
  induction list with
  | nil => rfl
  | cons x rest ih =>
    rw [List.flatMap_cons, cutBehind_cons]
    cases hx : isMark x with
    | true =>
      obtain ⟨body, y, hwrite, hbody, hy⟩ := hmark x hx
      have hends : EndsInMark isEnd (write x) := by
        rw [hwrite]
        exact endsInMark_concat isEnd hy body
      rw [cutBehind_append hends, ih, attach_of_mark _ hx, hwrite, cutBehind_marked hbody hy]
      simp [hwrite]
    | false =>
      obtain ⟨hne, hwrite⟩ := hplain x hx
      cases hpieces : cutBehind isMark rest with
      | nil =>
        rw [cutBehind_eq_nil_iff.mp hpieces, List.flatMap_nil, List.append_nil,
          cutBehind_of_unmarked hwrite hne, attach_nil]
        simp
      | cons piece pieces =>
        rw [hpieces, List.map_cons] at ih
        rw [cutBehind_unmarked_append hwrite ih, attach_cons _ hx, List.map_cons,
          List.flatMap_cons]

end Pieces

/-! ## Bytes of a text -/

/-- The bytes of a text. -/
def bytesOf (text : List Char) : List UInt8 :=
  text.flatMap String.utf8EncodeChar

variable {text : String} {bytes bad : List UInt8} {c : Char}

@[simp] theorem bytesOf_nil : bytesOf [] = [] := rfl

theorem bytesOf_cons (c : Char) (text : List Char) :
    bytesOf (c :: text) = String.utf8EncodeChar c ++ bytesOf text := rfl

@[simp] theorem bytesOf_append (front back : List Char) :
    bytesOf (front ++ back) = bytesOf front ++ bytesOf back :=
  List.flatMap_append

theorem data_toUTF8 (text : String) : text.toUTF8.data.toList = bytesOf text.toList := by
  rw [String.toUTF8_eq_toByteArray, ← String.utf8Encode_toList, List.utf8Encode,
    List.data_toByteArray]
  rfl

theorem toList_eq_data_toList (bytes : ByteArray) : bytes.toList = bytes.data.toList := by
  have hloop : ∀ (i : Nat) (read : List UInt8),
      ByteArray.toList.loop bytes i read = read.reverse ++ bytes.data.toList.drop i := by
    intro i read
    fun_induction ByteArray.toList.loop bytes i read with
    | case1 i read hi ih =>
      have hlt : i < bytes.data.toList.length := hi
      rw [ih, List.drop_eq_getElem_cons hlt]
      simp [ByteArray.get!, hi]
    | case2 i read hi =>
      have hle : bytes.data.toList.length ≤ i := Nat.le_of_not_lt hi
      rw [List.drop_eq_nil_of_le hle, List.append_nil]
  exact hloop 0 []

/-- The bytes of a text are read as the text, and no others are. -/
theorem textOf?_eq_some_iff : textOf? bytes = some text ↔ bytes = bytesOf text.toList := by
  unfold textOf? String.fromUTF8?
  rw [Option.dite_none_right_eq_some]
  constructor
  · intro ⟨hvalid, htext⟩
    rw [← data_toUTF8, ← Option.some_inj.mp htext]
    rfl
  · intro hbytes
    have hsame : (⟨bytes.toArray⟩ : ByteArray) = text.toByteArray := by
      apply ByteArray.ext
      apply Array.toList_inj.mp
      rw [hbytes, ← data_toUTF8]
      rfl
    refine ⟨hsame ▸ text.isValidUTF8, ?_⟩
    rw [Option.some_inj, ← String.toByteArray_inj]
    exact hsame

theorem textOf?_bytesOf (text : List Char) :
    textOf? (bytesOf text) = some (String.ofList text) := by
  rw [textOf?_eq_some_iff, String.toList_ofList]

@[simp] theorem charsOf_bytesOf (text : List Char) : charsOf (bytesOf text) = text := by
  unfold charsOf
  rw [textOf?_bytesOf]
  exact String.toList_ofList

/-! ## Line feeds -/

theorem utf8EncodeChar_of_lt (h : c.toNat < 128) :
    String.utf8EncodeChar c = [UInt8.ofNat c.toNat] := by
  rw [String.utf8EncodeChar.eq_1]
  exact if_pos (Nat.le_of_lt_succ h)

/-- Beyond ASCII all bytes of a character are. -/
theorem le_toNat_of_mem_utf8EncodeChar (h : 128 ≤ c.toNat) {byte : UInt8}
    (hbyte : byte ∈ String.utf8EncodeChar c) : 128 ≤ byte.toNat := by
  have hnot : ¬ c.val.toNat ≤ 127 := Nat.not_le_of_lt h
  rw [String.utf8EncodeChar.eq_1, if_neg hnot] at hbyte
  -- One case for each number of bytes, and in it one for each of them.
  split at hbyte
  · simp only [List.mem_cons, List.not_mem_nil, or_false] at hbyte
    rcases hbyte with rfl | rfl <;> rw [UInt8.toNat_ofNat'] <;> omega
  · split at hbyte
    · simp only [List.mem_cons, List.not_mem_nil, or_false] at hbyte
      rcases hbyte with rfl | rfl | rfl <;> rw [UInt8.toNat_ofNat'] <;> omega
    · simp only [List.mem_cons, List.not_mem_nil, or_false] at hbyte
      rcases hbyte with rfl | rfl | rfl | rfl <;> rw [UInt8.toNat_ofNat'] <;> omega

/-- A byte of ASCII belongs to the character with its number only. -/
theorem ascii_mem_utf8EncodeChar_iff {n : Nat} (hn : n < 128) :
    UInt8.ofNat n ∈ String.utf8EncodeChar c ↔ c.toNat = n := by
  have hbyte : (UInt8.ofNat n).toNat = n := by
    rw [UInt8.toNat_ofNat']
    omega
  by_cases hc : c.toNat < 128
  · rw [utf8EncodeChar_of_lt hc, List.mem_singleton, ← UInt8.toNat_inj, hbyte,
      UInt8.toNat_ofNat']
    omega
  · refine iff_of_false (fun hmem => ?_) (by omega)
    have hle := le_toNat_of_mem_utf8EncodeChar (Nat.le_of_not_lt hc) hmem
    omega

/-- The byte of a line feed. -/
def lineFeed : UInt8 := 10

theorem utf8EncodeChar_newline : String.utf8EncodeChar '\n' = [lineFeed] := rfl

theorem lineFeed_mem_utf8EncodeChar_iff : lineFeed ∈ String.utf8EncodeChar c ↔ c = '\n' := by
  rw [← Char.toNat_inj]
  exact ascii_mem_utf8EncodeChar_iff (n := 10) (by decide)

/-- A text may be cut at its line feeds before or after it becomes bytes. -/
theorem cutBehind_bytesOf (text : List Char) :
    cutBehind (· == lineFeed) (bytesOf text) = (cutBehind (· == '\n') text).map bytesOf := by
  refine cutBehind_flatMap (fun c hc => ?_) (fun c hc => ?_) text
  · rw [beq_iff_eq] at hc
    exact ⟨[], lineFeed, by rw [hc, utf8EncodeChar_newline]; rfl, by simp, beq_self_eq_true _⟩
  · rw [beq_eq_false_iff_ne] at hc
    refine ⟨String.utf8EncodeChar_ne_nil, fun byte hbyte => ?_⟩
    rw [beq_eq_false_iff_ne]
    intro hfeed
    rw [hfeed] at hbyte
    exact hc (lineFeed_mem_utf8EncodeChar_iff.mp hbyte)

theorem endsInMark_bytesOf {text : List Char} (h : EndsInMark (· == '\n') text) :
    EndsInMark (· == lineFeed) (bytesOf text) := by
  cases List.eq_nil_or_concat' text with
  | inl hnil => simp [hnil, EndsInMark]
  | inr hlast =>
    obtain ⟨front, c, rfl⟩ := hlast
    have hc : c = '\n' := beq_iff_eq.mp (h c List.getLast?_concat)
    rw [hc, bytesOf_append]
    exact endsInMark_concat (· == lineFeed) (beq_self_eq_true lineFeed) (bytesOf front)

/-! ## Reading piece by piece -/

theorem textsInto_eq (read : Array String) (pieces : List (List UInt8)) :
    (textsInto read pieces).toList = read.toList ++ textsOf pieces := by
  induction pieces generalizing read with
  | nil => simp [textsInto, textsOf]
  | cons piece rest ih =>
    unfold textsOf textsInto
    cases textOf? piece with
    | none => simp
    | some text => simp [ih]

/-- A piece that is not text ends the reading, whatever follows it. -/
theorem textsOf_append (texts : List (List Char)) (hbad : textOf? bad = none)
    (behind : List (List UInt8)) :
    textsOf (texts.map bytesOf ++ bad :: behind) = texts.map String.ofList := by
  induction texts with
  | nil => simp [textsOf, textsInto, hbad]
  | cons text rest ih =>
    rw [List.map_cons, List.cons_append, textsOf, textsInto, textOf?_bytesOf]
    simp only [textsInto_eq, ih]
    rfl

/-- A line feed does not make text of what is not. -/
theorem textOf?_append_lineFeed (hbad : textOf? bad = none) :
    textOf? (bad ++ [lineFeed]) = none := by
  rw [Option.eq_none_iff_forall_ne_some]
  intro text htext
  have hbytes := textOf?_eq_some_iff.mp htext
  cases List.eq_nil_or_concat' text.toList with
  | inl hnil => simp [hnil] at hbytes
  | inr hlast =>
    obtain ⟨front, c, hchars⟩ := hlast
    rw [hchars, bytesOf_append, bytesOf_cons, bytesOf_nil, List.append_nil] at hbytes
    -- The last byte of the last character is the line feed, so it is the line feed itself.
    have hlast := congrArg List.getLast? hbytes
    rw [List.getLast?_concat, List.getLast?_append_of_ne_nil _ String.utf8EncodeChar_ne_nil]
      at hlast
    have hc := lineFeed_mem_utf8EncodeChar_iff.mp (List.mem_of_getLast? hlast.symm)
    rw [hc, utf8EncodeChar_newline] at hbytes
    rw [List.append_cancel_right hbytes, textOf?_bytesOf] at hbad
    cases hbad

end StripePruning
