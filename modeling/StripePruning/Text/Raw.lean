import StripePruning.Text.Decoding

/-!
# Texts of the operating system

The words of a command line and the paths of files are bytes.  As a rule they
are UTF-8, but nothing makes sure of that: `RawText.text?` gives the text that
such bytes stand for, if they do, and `RawText.display` shows them in any case.
-/

namespace StripePruning

/-- Bytes that stand for a text as a rule. -/
structure RawText where
  bytes : List UInt8
deriving DecidableEq

namespace RawText

/-- The bytes of a text. -/
def ofString (text : String) : RawText where
  bytes := text.toUTF8.data.toList

instance instCoeString : Coe String RawText where
  coe := ofString

/-- The text that the bytes stand for, if they are UTF-8. -/
def text? (t : RawText) : Option String :=
  textOf? t.bytes

/-! ## Bytes that are not UTF-8 -/

/-- How many bytes follow the first one of a character, and the bounds of the
next one. -/
def following (first : UInt8) : Nat × UInt8 × UInt8 :=
  if first < 0xC2 then (0, 0, 0)
  else if first < 0xE0 then (1, 0x80, 0xBF)
  else if first = 0xE0 then (2, 0xA0, 0xBF)
  else if first = 0xED then (2, 0x80, 0x9F)
  else if first < 0xF0 then (2, 0x80, 0xBF)
  else if first = 0xF0 then (3, 0x90, 0xBF)
  else if first < 0xF4 then (3, 0x80, 0xBF)
  else if first = 0xF4 then (3, 0x80, 0x8F)
  else (0, 0, 0)

/-- The number of bytes that go on with a character: at most those that are
`owed`, the next one of them between two bounds. -/
def goingOn : Nat → UInt8 → UInt8 → List UInt8 → Nat
  | owed + 1, low, high, byte :: rest =>
    if low ≤ byte && byte ≤ high then goingOn owed 0x80 0xBF rest + 1 else 0
  | _, _, _, _ => 0

/-- Bytes as characters.  Where a character is not there or breaks off, an unknown
character stands for its bytes. -/
def shownChars : List UInt8 → List Char
  | [] => []
  | first :: rest =>
    let (owed, low, high) := following first
    let count := goingOn owed low high rest
    match textOf? (first :: rest.take count) with
    | some text => text.toList ++ shownChars (rest.drop count)
    | none => '\uFFFD' :: shownChars (rest.drop count)
termination_by bytes => bytes.length
decreasing_by all_goals simp only [List.length_drop, List.length_cons]; omega

/-- The text as it is shown to a reader. -/
def display (t : RawText) : String :=
  t.text?.getD (String.ofList (shownChars t.bytes))

/-! ## Texts and their bytes -/

/-- Bytes stand for a text exactly if they are the bytes of the text. -/
theorem text?_eq_some_iff {t : RawText} {text : String} :
    t.text? = some text ↔ t = ofString text := by
  have hbytes : String.fromUTF8? ⟨t.bytes.toArray⟩ = some text ↔
      (⟨t.bytes.toArray⟩ : ByteArray) = text.toUTF8 := by
    rw [String.fromUTF8?, Option.dite_none_right_eq_some]
    constructor
    · rintro ⟨h, htext⟩
      rw [← Option.some.inj htext]
      rfl
    · intro h
      have hvalid : (⟨t.bytes.toArray⟩ : ByteArray).IsValidUTF8 := h ▸ text.isValidUTF8
      exact ⟨hvalid, congrArg some (String.toByteArray_inj.1 h)⟩
  rw [text?, textOf?, hbytes]
  constructor
  · intro h
    cases t
    rw [ofString, ← h]
  · rintro rfl
    rfl

@[simp]
theorem text?_ofString (text : String) : (ofString text).text? = some text :=
  text?_eq_some_iff.2 rfl

@[simp]
theorem display_ofString (text : String) : (ofString text).display = text := by
  rw [display, text?_ofString]
  rfl

/-- Whether the bytes are those of a text. -/
def IsText (t : RawText) : Prop :=
  ∃ text : String, t = ofString text

theorem not_isText_iff {t : RawText} : ¬ t.IsText ↔ t.text? = none := by
  cases htext : t.text? with
  | none => simp [IsText, ← text?_eq_some_iff, htext]
  | some text => simp [IsText, ← text?_eq_some_iff, htext]

end RawText

end StripePruning
