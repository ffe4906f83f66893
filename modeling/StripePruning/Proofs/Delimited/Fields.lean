import StripePruning.Delimited.Load
import StripePruning.Proofs.Delimited.Cells
import StripePruning.Proofs.Delimited.Records
import StripePruning.Proofs.Number.Numerals
import StripePruning.Proofs.Steps

/-!
# Texts as fields

`fieldOf` is a text as a field.  Texts in ASCII without commas, quotes and line ends are plain
fields (`plainField_fieldOf`), and so are the numerals of values (`plainField_toString`).

Numerals show that they are integers (`ofCells_toString`), and `push_toString` says that cells with
numerals are read as the values, whatever number of them shows the type of their column.
-/

namespace StripePruning

namespace Delimited

/-! ## Texts as fields -/

/-- A text as a field. -/
def fieldOf (text : String) : Field :=
  bytesOf text.toList

variable {text : String} {values : List Int64}

theorem textOf?_fieldOf (text : String) : textOf? (fieldOf text) = some text := by
  rw [fieldOf, textOf?_bytesOf, String.ofList_toList]

theorem mapM_textOf? (texts : List String) : (texts.map fieldOf).mapM textOf? = some texts :=
  mapM_written fun text _ => textOf?_fieldOf text

theorem mapM_mapM_textOf? (rows : List (List String)) :
    (rows.map fun texts => texts.map fieldOf).mapM (fun row => row.mapM textOf?) = some rows :=
  mapM_written fun texts _ => mapM_textOf? texts

theorem isPlain_ofNat {n : Nat} (hcomma : 44 < n) (hascii : n < 128) : IsPlain (UInt8.ofNat n) := by
  have hall : ∀ n : Fin 128, 44 < n.val → IsPlain (UInt8.ofNat n.val) := by decide
  exact hall ⟨n, hascii⟩ hcomma

/-- Beyond the comma all characters of ASCII are plain. -/
theorem plainField_fieldOf (hne : text ≠ "")
    (h : ∀ c ∈ text.toList, 44 < c.toNat ∧ c.toNat < 128) : PlainField (fieldOf text) where
  ne_nil := by
    obtain ⟨c, rest, hchars⟩ := List.exists_cons_of_ne_nil (mt String.toList_eq_nil_iff.mp hne)
    rw [fieldOf, hchars, bytesOf_cons]
    exact List.append_ne_nil_of_left_ne_nil String.utf8EncodeChar_ne_nil _
  isPlain byte hbyte := by
    obtain ⟨c, hc, hbyte⟩ := List.mem_flatMap.mp hbyte
    obtain ⟨hcomma, hascii⟩ := h c hc
    rw [utf8EncodeChar_of_lt hascii, List.mem_singleton] at hbyte
    rw [hbyte]
    exact isPlain_ofNat hcomma hascii

theorem bytesOf_intercalate (separator : List Char) (texts : List (List Char)) :
    bytesOf (separator.intercalate texts)
      = (bytesOf separator).intercalate (texts.map bytesOf) := by
  induction texts with
  | nil => rfl
  | cons text rest ih =>
    cases rest with
    | nil => rw [List.map_singleton, List.intercalate_singleton, List.intercalate_singleton]
    | cons next rest =>
      rw [List.intercalate_cons_cons, bytesOf_append, bytesOf_append, ih, List.map_cons,
        List.map_cons, List.map_cons, List.intercalate_cons_cons]

/-- Texts with commas between them and a line end are the line of their fields. -/
theorem bytesOf_line (texts : List String) :
    bytesOf (",".intercalate texts ++ "\n").toList = lineOf (texts.map fieldOf) := by
  rw [String.toList_append, String.toList_intercalate, bytesOf_append, bytesOf_intercalate,
    List.map_map]
  rfl

/-- Fields that are text are text when they are put one behind the other. -/
theorem isText_of_fieldOf {rows : List Record}
    (h : ∀ record ∈ rows, ∀ field ∈ record, ∃ text, field = fieldOf text) :
    Sheet.isText rows = true := by
  have hfields : ∀ fields : List Field, (∀ field ∈ fields, ∃ text, field = fieldOf text) →
      ∃ chars, fields.flatten = bytesOf chars := by
    intro fields hfields
    induction fields with
    | nil => exact ⟨[], rfl⟩
    | cons field rest ih =>
      obtain ⟨text, rfl⟩ := hfields field List.mem_cons_self
      obtain ⟨chars, hchars⟩ := ih fun other hother => hfields other (List.mem_cons_of_mem _ hother)
      refine ⟨text.toList ++ chars, ?_⟩
      rw [List.flatten_cons, hchars, bytesOf_append, fieldOf]
  obtain ⟨chars, hchars⟩ := hfields rows.flatten fun field hfield => by
    obtain ⟨record, hrecord, hfield⟩ := List.mem_flatten.mp hfield
    exact h record hrecord field hfield
  rw [Sheet.isText, hchars, textOf?_bytesOf]
  rfl

/-! ## Numerals as cells -/

/-- A value in decimal: a minus sign if it is negative, and ASCII digits. -/
theorem toList_toString (v : Int64) :
    (toString v).toList
      = (if v.toInt < 0 then ['-'] else []) ++ Nat.toDigits 10 v.toInt.natAbs :=
  (decimal_zero v.toInt).symm

theorem isDigit_of_mem_toDigits {n : Nat} {c : Char} (hc : c ∈ Nat.toDigits 10 n) : c.isDigit :=
  Nat.isDigit_of_mem_toDigits (by decide) (by decide) hc

theorem toNat_of_isDigit {c : Char} (h : c.isDigit) : 44 < c.toNat ∧ c.toNat < 58 := by
  obtain ⟨hlow, hhigh⟩ := Char.isDigit_iff_toNat.mp h
  rw [show '0'.toNat = 48 from rfl] at hlow
  rw [show '9'.toNat = 57 from rfl] at hhigh
  omega

theorem toNat_of_mem_toString {v : Int64} {c : Char} (hc : c ∈ (toString v).toList) :
    44 < c.toNat ∧ c.toNat < 58 := by
  rw [toList_toString, List.mem_append] at hc
  cases hc with
  | inl hsign =>
    split at hsign
    · rw [List.mem_singleton.mp hsign]
      decide
    · cases hsign
  | inr hdigit => exact toNat_of_isDigit (isDigit_of_mem_toDigits hdigit)

theorem toString_ne_empty (v : Int64) : toString v ≠ "" := by
  intro hempty
  have hchars := toList_toString v
  rw [hempty] at hchars
  exact Nat.toDigits_ne_nil (List.append_eq_nil_iff.mp hchars.symm).2

theorem plainField_toString (v : Int64) : PlainField (fieldOf (toString v)) := by
  refine plainField_fieldOf (toString_ne_empty v) fun c hc => ?_
  obtain ⟨hlow, hhigh⟩ := toNat_of_mem_toString hc
  omega

theorem readInt64?_toString (v : Int64) : readInt64? (toString v).toList = some v := by
  rw [readInt64?_eq_some_iff, toList_toString]
  exact signedDigits_decimal 0 v.toInt

/-- Truth values have letters, numerals have none. -/
theorem isBooleanForm_toString (v : Int64) : isBooleanForm (toString v).toList = false := by
  have hletter : 'e' ∉ (toString v).toList.map foldLetter := by
    intro hmem
    obtain ⟨c, hc, hfold⟩ := List.mem_map.mp hmem
    have hall : ∀ n : Fin 58, foldLetter (Char.ofNat n.val) ≠ 'e' := by decide
    refine hall ⟨c.toNat, (toNat_of_mem_toString hc).2⟩ ?_
    rw [Char.ofNat_toNat]
    exact hfold
  have hne : ∀ word : String, 'e' ∈ word.toList →
      ((toString v).toList.map foldLetter == word.toList) = false := by
    intro word hword
    rw [beq_eq_false_iff_ne]
    intro heq
    exact hletter (heq ▸ hword)
  unfold isBooleanForm
  dsimp only
  rw [hne "true" (by decide), hne "false" (by decide)]
  rfl

theorem isDigits_toDigits (n : Nat) : isDigits (Nat.toDigits 10 n) = true := by
  rw [isDigits, Bool.and_eq_true, Bool.not_eq_true', List.isEmpty_eq_false_iff, List.all_eq_true]
  refine ⟨Nat.toDigits_ne_nil, fun c hc => ?_⟩
  rw [isDecimalDigit, isDigit_of_mem_toDigits hc, Bool.true_or]

theorem dropMinus_toDigits (n : Nat) : dropMinus (Nat.toDigits 10 n) = Nat.toDigits 10 n := by
  unfold dropMinus
  split
  · rename_i rest heq
    have hmem : '-' ∈ Nat.toDigits 10 n := by
      rw [heq]
      exact List.mem_cons_self
    exact absurd (isDigit_of_mem_toDigits hmem) (by decide)
  · rfl

theorem isIntegerForm_toString (v : Int64) : isIntegerForm (toString v).toList = true := by
  unfold isIntegerForm
  rw [toList_toString]
  split
  · exact isDigits_toDigits v.toInt.natAbs
  · rw [List.nil_append, dropMinus_toDigits]
    exact isDigits_toDigits v.toInt.natAbs

/-- A numeral shows that its column is one of integers, also if it is long. -/
theorem ofCell_toString (v : Int64) : CellType.ofCell (toString v) = .integer := by
  unfold CellType.ofCell CellType.ofInteger
  simp [isBooleanForm_toString, isIntegerForm_toString, readInt64?_toString]

theorem widen_toString {type : Option CellType} (htype : type = none ∨ type = some .integer)
    (v : Int64) : CellType.widen type (toString v) = some .integer := by
  have hempty : (toString v).isEmpty = false := by
    rw [← Bool.not_eq_true, String.isEmpty_iff]
    exact toString_ne_empty v
  unfold CellType.widen
  rw [hempty]
  rcases htype with rfl | rfl
  · exact congrArg some (ofCell_toString v)
  · dsimp only
    rw [ofCell_toString]
    rfl

/-- Numerals are integers, however many there are. -/
theorem ofCells_toString (values : List Int64) :
    CellType.ofCells (values.map toString) = if values = [] then none else some .integer := by
  have hfold : ∀ values : List Int64,
      (values.map toString).foldl CellType.widen (some .integer) = some .integer := by
    intro values
    induction values with
    | nil => rfl
    | cons v rest ih => rw [List.map_cons, List.foldl_cons, widen_toString (Or.inr rfl), ih]
  cases values with
  | nil => rfl
  | cons v rest =>
    rw [if_neg (List.cons_ne_nil v rest), CellType.ofCells, List.map_cons, List.foldl_cons,
      widen_toString (Or.inl rfl), hfold]

theorem value?_toString (v : Int64) : value? (some .integer) (fieldOf (toString v)) = some v := by
  have hempty : (fieldOf (toString v)).isEmpty = false :=
    List.isEmpty_eq_false_iff.mpr (plainField_toString v).ne_nil
  unfold value?
  rw [hempty, fieldOf, charsOf_bytesOf]
  exact readInt64?_toString v

/-- The cells of a column of values are read as the values, if at least one of them shows the type
of the column. -/
theorem push_toString {n : Nat} (hn : 0 < n) (values : List Int64) :
    let type := CellType.ofCells ((values.take n).map toString)
    (Cells.empty type).push type (values.map fun v => fieldOf (toString v))
      = .ok (.numbers values.toArray) := by
  intro type
  cases values with
  | nil =>
    have htype : type = none := by
      show CellType.ofCells (([].take n).map toString) = none
      rw [ofCells_toString, List.take_nil, if_pos rfl]
    rw [htype]
    rfl
  | cons v rest =>
    have htype : type = some .integer := by
      show CellType.ofCells (((v :: rest).take n).map toString) = some .integer
      rw [ofCells_toString, if_neg]
      intro hnil
      cases List.take_eq_nil_iff.mp hnil with
      | inl hzero => omega
      | inr hcons => cases hcons
    rw [htype]
    show Cells.push _ (.numbers #[]) _ = _
    unfold Cells.push
    rw [mapM_written fun v _ => value?_toString v]
    show Except.ok (Cells.numbers ([].toArray ++ (v :: rest))) = _
    rw [List.toArray_appendList, List.nil_append]

end Delimited

end StripePruning
