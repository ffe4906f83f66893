import Mathlib.Data.List.Infix
import StripePruning.Text.Blank
import StripePruning.Text.Piece

/-!
# What a text is made of

A reader looks for a piece of a text, cuts the text at a mark, or drops what stands at its
ends.  This module says of each what the text is made of when it succeeds.

* `occursIn_iff` and `after?_eq_some_iff` are about pieces and `cutAt?_eq_some_iff` is about
  marks: the whole text is the piece or the mark and what stands around it.
* `dropWhile_eq_iff` is about an end of a text, and `trimBlanks_append` and
  `append_trimBlanks` about the blanks at both.
-/

namespace StripePruning

variable {text rest : List Char}

/-! ## Pieces -/

theorem occursIn_iff (piece text : List Char) : occursIn piece text = true ↔ piece <:+: text := by
  induction text with
  | nil => simp [occursIn]
  | cons c rest ih =>
    rw [occursIn, Bool.or_eq_true, ih, List.isPrefixOf_iff_prefix, List.infix_cons_iff]

theorem after?_eq_some_iff (lead : List Char) :
    after? lead text = some rest ↔ text = lead ++ rest := by
  induction lead generalizing text with
  | nil => simp [after?]
  | cons l lead ih =>
    cases text with
    | nil => simp [after?]
    | cons c text =>
      by_cases h : l = c
      · simp [after?, h, ih]
      · simp [after?, h, Ne.symm h]

@[simp] theorem after?_append (lead rest : List Char) : after? lead (lead ++ rest) = some rest :=
  (after?_eq_some_iff lead).mpr rfl

section Marks

variable {α : Type} [DecidableEq α] {mark : α} {text : List α}

theorem cutAt?_append {before : List α} (h : mark ∉ before) (behind : List α) :
    cutAt? mark (before ++ mark :: behind) = some (before, behind) := by
  induction before with
  | nil => simp [cutAt?]
  | cons c before ih =>
    rw [List.mem_cons, not_or] at h
    simp [cutAt?, Ne.symm h.1, ih h.2]

/-- A text is cut at the first mark: there is none in the part before it. -/
theorem cutAt?_eq_some_iff {before behind : List α} :
    cutAt? mark text = some (before, behind) ↔
      text = before ++ mark :: behind ∧ mark ∉ before := by
  constructor
  · intro h
    induction text generalizing before with
    | nil => simp [cutAt?] at h
    | cons c rest ih =>
      unfold cutAt? at h
      split at h
      · rename_i hmark
        cases h
        simp [hmark]
      · rename_i hmark
        obtain ⟨⟨before, behind⟩, hcut, hparts⟩ := Option.map_eq_some_iff.mp h
        cases hparts
        have hrest := ih hcut
        simp [hrest.1, hrest.2, Ne.symm hmark]
  · intro h
    rw [h.1]
    exact cutAt?_append h.2 behind

theorem cutAt?_eq_none_iff : cutAt? mark text = none ↔ mark ∉ text := by
  induction text with
  | nil => simp [cutAt?]
  | cons c rest ih =>
    by_cases h : c = mark
    · simp [cutAt?, h]
    · simp [cutAt?, h, Ne.symm h, ih]

/-- There is a part even of a text that is empty. -/
theorem splitAtEach_ne_nil (mark : α) (text : List α) : splitAtEach mark text ≠ [] := by
  cases text with
  | nil => simp [splitAtEach]
  | cons c rest =>
    rw [splitAtEach, List.foldr_cons]
    unfold splitStep
    split
    · simp
    · split <;> simp

end Marks

/-! ## Ends -/

/-- What is left of a text without a lead does not start with what the lead is made of. -/
theorem dropWhile_eq_iff {p : Char → Bool} :
    text.dropWhile p = rest ↔
      ∃ lead, text = lead ++ rest ∧ (∀ c ∈ lead, p c) ∧ ∀ c, rest.head? = some c → p c = false := by
  constructor
  · intro h
    subst h
    refine ⟨text.takeWhile p, List.takeWhile_append_dropWhile.symm,
      List.all_eq_true.mp List.all_takeWhile, fun c hc => ?_⟩
    have hnot := List.head?_dropWhile_not p text
    rwa [hc] at hnot
  · rintro ⟨lead, rfl, hlead, hrest⟩
    rw [List.dropWhile_append_of_pos hlead]
    cases rest with
    | nil => rfl
    | cons c rest => simp [hrest c rfl]

/-- Only blanks are dropped. -/
theorem append_trimBlanks (text : List Char) :
    ∃ before behind, text = before ++ trimBlanks text ++ behind ∧
      (∀ c ∈ before, isBlank c) ∧ ∀ c ∈ behind, isBlank c := by
  obtain ⟨before, htext, hbefore, -⟩ := dropWhile_eq_iff.mp (rfl : text.dropWhile isBlank = _)
  obtain ⟨behind, hrest, hbehind, -⟩ :=
    dropWhile_eq_iff.mp (rfl : (trimBlanksLeft text).reverse.dropWhile isBlank = _)
  refine ⟨before, behind.reverse, ?_, hbefore, by simpa using hbehind⟩
  have hleft : trimBlanksLeft text = trimBlanks text ++ behind.reverse := by
    rw [List.reverse_eq_iff] at hrest
    rw [hrest, List.reverse_append]
    rfl
  rw [List.append_assoc, ← hleft]
  exact htext

/-- All blanks at the ends are dropped. -/
theorem trimBlanks_append {before core behind : List Char} (hbefore : ∀ c ∈ before, isBlank c)
    (hcore : ∀ c ∈ core, isBlank c = false) (hbehind : ∀ c ∈ behind, isBlank c) :
    trimBlanks (before ++ core ++ behind) = core := by
  have hreverse : ∀ c ∈ behind.reverse, isBlank c := by simpa using hbehind
  have hhead : ∀ c, core.head? = some c → isBlank c = false :=
    fun c hc => hcore c (List.mem_of_mem_head? hc)
  have hlast : ∀ c, core.reverse.head? = some c → isBlank c = false :=
    fun c hc => hcore c (by simpa using List.mem_of_mem_head? hc)
  unfold trimBlanks trimBlanksLeft
  rw [List.append_assoc, List.dropWhile_append_of_pos hbefore]
  cases core with
  | nil =>
    have hnone : behind.dropWhile isBlank = [] :=
      dropWhile_eq_iff.mpr ⟨behind, (List.append_nil _).symm, hbehind, by simp⟩
    simp [hnone]
  | cons c core =>
    have hfirst : ((c :: core) ++ behind).dropWhile isBlank = (c :: core) ++ behind := by
      simp [hhead c rfl]
    rw [hfirst, List.reverse_append, dropWhile_eq_iff.mpr ⟨behind.reverse, rfl, hreverse, hlast⟩,
      List.reverse_reverse]

end StripePruning
