import StripePruning.Proofs.Number.Numerals
import StripePruning.Proofs.Text.Pieces
import StripePruning.Workload.Line

/-!
# The grammar of a workload

What a line of a workload says is a matter of its form alone.  `IsLabel`, `IsRange` and
`IsPoint` are the forms of a line without the line ends behind it, and this module compares
`parse` with them.

* `isBody_iff` says what is left of a line without its line ends, and `field?_eq_some_iff`
  which fields are read as a number.
* `query?_eq_range_iff` and `query?_eq_point_iff` say which lines are queries.
* A query is no label, since the letters of the label are missing from it.  Hence
  `parse_eq_segment_iff` and its companions, one for each thing that a line can say.
* `IsField.dropLineEnds` is why a number can be printed with any blanks around it, line
  ends included, and is read back.
-/

namespace StripePruning

namespace WorkloadLine

variable {line t text x y : List Char} {m n : Int} {a b : Int64}

/-! ## Line ends -/

/-- What is left of a line when all of its last CR and LF characters are gone. -/
structure IsBody (line body : List Char) : Prop where
  eq_append : ∃ ends, line = body ++ ends ∧ ∀ c ∈ ends, c = '\r' ∨ c = '\n'
  last_ne : ∀ c, body.getLast? = some c → c ≠ '\r' ∧ c ≠ '\n'

theorem isLineEnd_iff (c : Char) : isLineEnd c = true ↔ c = '\r' ∨ c = '\n' := by
  simp [isLineEnd]

theorem isLineEnd_eq_false_iff (c : Char) : isLineEnd c = false ↔ c ≠ '\r' ∧ c ≠ '\n' := by
  simp [isLineEnd]

theorem isBody_iff : IsBody line t ↔ dropLineEnds line = t := by
  have hends : IsBody line t ↔ line.reverse.dropWhile isLineEnd = t.reverse := by
    rw [dropWhile_eq_iff]
    simp only [isLineEnd_iff, isLineEnd_eq_false_iff, List.head?_reverse]
    constructor
    · intro ⟨⟨ends, hline, hends⟩, hlast⟩
      exact ⟨ends.reverse, by rw [hline, List.reverse_append], by simpa using hends, hlast⟩
    · intro ⟨lead, hline, hlead, hlast⟩
      refine ⟨⟨lead.reverse, ?_, by simpa using hlead⟩, hlast⟩
      rw [← List.reverse_reverse line, hline, List.reverse_append, List.reverse_reverse]
  rw [hends, dropLineEnds, List.reverse_eq_iff]

theorem isBody_dropLineEnds (line : List Char) : IsBody line (dropLineEnds line) :=
  isBody_iff.mpr rfl

/-- The line ends behind a text that does not end in one are those of what follows. -/
theorem dropLineEnds_append {front : List Char}
    (hfront : ∃ c, front.getLast? = some c ∧ isLineEnd c = false) (behind : List Char) :
    dropLineEnds (front ++ behind) = front ++ dropLineEnds behind := by
  obtain ⟨⟨ends, hbehind, hends⟩, hlast⟩ := isBody_dropLineEnds behind
  refine isBody_iff.mp ⟨⟨ends, ?_, hends⟩, fun c hc => ?_⟩
  · rw [List.append_assoc, ← hbehind]
  · rw [List.getLast?_append] at hc
    cases hrest : (dropLineEnds behind).getLast? with
    | none =>
      obtain ⟨last, hfrontlast, hnot⟩ := hfront
      rw [hrest, hfrontlast] at hc
      rw [← Option.some_inj.mp hc]
      exact (isLineEnd_eq_false_iff last).mp hnot
    | some last =>
      rw [hrest] at hc
      rw [← Option.some_inj.mp hc]
      exact hlast last hrest

/-! ## Fields -/

/-- A numeral with blanks around it. -/
def IsField (text : List Char) (n : Int) : Prop :=
  ∃ before number behind, text = before ++ number ++ behind ∧
    (∀ c ∈ before, isBlank c) ∧ (∀ c ∈ behind, isBlank c) ∧ SignedDigits number n

theorem isBlank_eq_false_of_isDigit {c : Char} (h : c.isDigit) : isBlank c = false := by
  have hrange : 48 ≤ c.toNat ∧ c.toNat ≤ 57 := Char.isDigit_iff_toNat.mp h
  unfold isBlank
  simp only [Bool.or_eq_false_iff, Bool.and_eq_false_iff, decide_eq_false_iff_not,
    beq_eq_false_iff_ne]
  omega

theorem isBlank_eq_false_of_mem (h : SignedDigits text n) :
    ∀ c ∈ text, isBlank c = false := by
  intro c hc
  cases h.mem hc with
  | inl hdigit => exact isBlank_eq_false_of_isDigit hdigit
  | inr hsign =>
    cases hsign with
    | inl hplus => rw [hplus]; decide
    | inr hminus => rw [hminus]; decide

/-- Every line end is a blank. -/
theorem isLineEnd_eq_false_of_isBlank {c : Char} (h : isBlank c = false) : isLineEnd c = false := by
  rw [isLineEnd_eq_false_iff]
  constructor
  · intro hc
    rw [hc] at h
    exact absurd h (by decide)
  · intro hc
    rw [hc] at h
    exact absurd h (by decide)

theorem field?_eq_some_iff : field? text = some a ↔ IsField text a.toInt := by
  unfold field?
  rw [readInt64?_eq_some_iff]
  constructor
  · intro h
    obtain ⟨before, behind, htext, hbefore, hbehind⟩ := append_trimBlanks text
    exact ⟨before, _, behind, htext, hbefore, hbehind, h⟩
  · intro ⟨before, number, behind, htext, hbefore, hbehind, hnumber⟩
    rw [htext, trimBlanks_append hbefore (isBlank_eq_false_of_mem hnumber) hbehind]
    exact hnumber

/-- A field holds one number. -/
theorem IsField.unique (hm : IsField text m) (hn : IsField text n) : m = n := by
  obtain ⟨before, number, behind, htext, hbefore, hbehind, hnumber⟩ := hm
  obtain ⟨before', number', behind', htext', hbefore', hbehind', hnumber'⟩ := hn
  have hsame : number = number' := by
    rw [← trimBlanks_append hbefore (isBlank_eq_false_of_mem hnumber) hbehind, ← htext, htext',
      trimBlanks_append hbefore' (isBlank_eq_false_of_mem hnumber') hbehind']
  exact hnumber.unique (hsame ▸ hnumber')

/-- A number that is out of range is not read. -/
theorem IsField.field?_eq_none (h : IsField text n) (hn : ¬ FitsInt64 n) : field? text = none := by
  rw [Option.eq_none_iff_forall_ne_some]
  intro a ha
  have hsame := h.unique (field?_eq_some_iff.mp ha)
  rw [hsame] at hn
  exact hn (fitsInt64_toInt a)

theorem IsField.mem (h : IsField text n) {c : Char} (hc : c ∈ text) :
    isBlank c ∨ c.isDigit ∨ c = '+' ∨ c = '-' := by
  obtain ⟨before, number, behind, htext, hbefore, hbehind, hnumber⟩ := h
  rw [htext, List.append_assoc, List.mem_append, List.mem_append] at hc
  cases hc with
  | inl hc => exact Or.inl (hbefore c hc)
  | inr hc =>
    cases hc with
    | inl hc => exact Or.inr (hnumber.mem hc)
    | inr hc => exact Or.inl (hbehind c hc)

/-- A field stays one without its line ends. -/
theorem IsField.dropLineEnds (h : IsField text n) (lead : List Char) :
    ∃ field, dropLineEnds (lead ++ text) = lead ++ field ∧ IsField field n := by
  obtain ⟨before, number, behind, htext, hbefore, hbehind, hnumber⟩ := h
  have hlast : ∃ c, (lead ++ before ++ number).getLast? = some c ∧ isLineEnd c = false := by
    have hc := List.getLast?_eq_some_getLast hnumber.ne_nil
    refine ⟨_, by rw [List.getLast?_append, hc]; rfl, ?_⟩
    exact isLineEnd_eq_false_of_isBlank (isBlank_eq_false_of_mem hnumber _ (List.getLast_mem _))
  have hblanks : ∀ c ∈ WorkloadLine.dropLineEnds behind, isBlank c := by
    obtain ⟨⟨ends, heq, -⟩, -⟩ := isBody_dropLineEnds behind
    intro c hc
    apply hbehind
    rw [heq]
    exact List.mem_append_left ends hc
  refine ⟨before ++ number ++ WorkloadLine.dropLineEnds behind, ?_,
    ⟨before, number, _, rfl, hbefore, hblanks, hnumber⟩⟩
  have hdrop := dropLineEnds_append hlast behind
  rw [htext]
  simpa only [List.append_assoc] using hdrop

/-! ## Forms of a line -/

/-- A line with the word of a label. -/
def IsLabel (t : List Char) : Prop :=
  "selectivity".toList <:+: t

instance : Decidable (IsLabel t) :=
  decidable_of_iff _ (occursIn_iff "selectivity".toList t)

/-- A range query: two numbers, separated by the first comma of the line. -/
def IsRange (t : List Char) (m n : Int) : Prop :=
  ∃ x y, t = "range:".toList ++ x ++ ",".toList ++ y ∧ ',' ∉ x ∧ IsField x m ∧ IsField y n

/-- A point query: one number. -/
def IsPoint (t : List Char) (n : Int) : Prop :=
  ∃ x, t = "point:".toList ++ x ∧ IsField x n

/-- A number has no part in a label. -/
theorem IsField.not_mem_s (h : IsField text n) : 's' ∉ text := fun hs =>
  absurd (h.mem hs) (by decide)

theorem IsField.not_mem_comma (h : IsField text n) : ',' ∉ text := fun hs =>
  absurd (h.mem hs) (by decide)

theorem not_isLabel_of_not_mem (h : 's' ∉ t) : ¬ IsLabel t := fun hlabel =>
  h (hlabel.subset (by decide))

theorem IsRange.not_isLabel (h : IsRange t m n) : ¬ IsLabel t := by
  obtain ⟨x, y, ht, -, hx, hy⟩ := h
  apply not_isLabel_of_not_mem
  rw [ht]
  simp [hx.not_mem_s, hy.not_mem_s]

theorem IsPoint.not_isLabel (h : IsPoint t n) : ¬ IsLabel t := by
  obtain ⟨x, ht, hx⟩ := h
  apply not_isLabel_of_not_mem
  rw [ht]
  simp [hx.not_mem_s]

/-! ## Queries -/

theorem query?_range (hx : ',' ∉ x) (y : List Char) :
    query? ("range:".toList ++ x ++ ",".toList ++ y) = do
      let first ← field? x
      let last ← field? y
      return Query.range first last := by
  have hafter : after? rangeMark ("range:".toList ++ x ++ ",".toList ++ y)
      = some (x ++ ',' :: y) := by
    simp [after?_eq_some_iff, rangeMark]
  unfold query?
  rw [hafter]
  simp only [cutAt?_append hx]
  rfl

theorem query?_point (x : List Char) :
    query? ("point:".toList ++ x) = do
      let value ← field? x
      return Query.point value := by
  have hrange : after? rangeMark ("point:".toList ++ x) = none := rfl
  have hafter : after? pointMark ("point:".toList ++ x) = some x := after?_append _ x
  unfold query?
  rw [hrange]
  simp only [hafter]
  rfl

/-- A line with a query has one of two forms. -/
theorem query?_cases {q : Query} (h : query? t = some q) :
    (∃ a b, q = .range a b ∧ IsRange t a.toInt b.toInt) ∨
      ∃ a, q = .point a ∧ IsPoint t a.toInt := by
  unfold query? at h
  split at h
  · rename_i rest hrest
    simp only [Option.bind_eq_bind, Option.bind_eq_some_iff, Option.pure_def, Option.some_inj,
      Prod.exists] at h
    obtain ⟨x, y, hcut, first, hfirst, last, hlast, hq⟩ := h
    have ht := (after?_eq_some_iff rangeMark).mp hrest
    obtain ⟨hparts, hcomma⟩ := cutAt?_eq_some_iff.mp hcut
    refine Or.inl ⟨first, last, hq.symm, x, y, ?_, hcomma, field?_eq_some_iff.mp hfirst,
      field?_eq_some_iff.mp hlast⟩
    rw [ht, hparts, List.append_assoc, List.append_assoc]
    rfl
  · simp only [Option.bind_eq_bind, Option.bind_eq_some_iff, Option.pure_def, Option.some_inj] at h
    obtain ⟨rest, hrest, value, hvalue, hq⟩ := h
    have ht := (after?_eq_some_iff pointMark).mp hrest
    exact Or.inr ⟨value, hq.symm, rest, ht, field?_eq_some_iff.mp hvalue⟩

theorem query?_eq_range_iff : query? t = some (.range a b) ↔ IsRange t a.toInt b.toInt := by
  constructor
  · intro h
    cases query?_cases h with
    | inl hrange =>
      obtain ⟨_, _, hq, hform⟩ := hrange
      cases hq
      exact hform
    | inr hpoint =>
      obtain ⟨_, hq, -⟩ := hpoint
      cases hq
  · intro ⟨x, y, ht, hcomma, hx, hy⟩
    rw [ht, query?_range hcomma, field?_eq_some_iff.mpr hx, field?_eq_some_iff.mpr hy]
    rfl

theorem query?_eq_point_iff : query? t = some (.point a) ↔ IsPoint t a.toInt := by
  constructor
  · intro h
    cases query?_cases h with
    | inl hrange =>
      obtain ⟨_, _, hq, -⟩ := hrange
      cases hq
    | inr hpoint =>
      obtain ⟨_, hq, hform⟩ := hpoint
      cases hq
      exact hform
  · intro ⟨x, ht, hx⟩
    rw [ht, query?_point, field?_eq_some_iff.mpr hx]
    rfl

theorem query?_eq_none_iff :
    query? t = none ↔
      (∀ a b : Int64, ¬ IsRange t a.toInt b.toInt) ∧ ∀ a : Int64, ¬ IsPoint t a.toInt := by
  constructor
  · intro h
    constructor
    · intro a b hrange
      rw [query?_eq_range_iff.mpr hrange] at h
      cases h
    · intro a hpoint
      rw [query?_eq_point_iff.mpr hpoint] at h
      cases h
  · intro ⟨hrange, hpoint⟩
    rw [Option.eq_none_iff_forall_ne_some]
    intro q hq
    cases query?_cases hq with
    | inl h =>
      obtain ⟨a, b, -, hform⟩ := h
      exact hrange a b hform
    | inr h =>
      obtain ⟨a, -, hform⟩ := h
      exact hpoint a hform

/-- A range with a number out of range is no query. -/
theorem IsRange.query?_eq_none (h : IsRange t m n) (hout : ¬ FitsInt64 m ∨ ¬ FitsInt64 n) :
    query? t = none := by
  obtain ⟨x, y, ht, hcomma, hx, hy⟩ := h
  rw [ht, query?_range hcomma]
  cases hout with
  | inl hm =>
    rw [hx.field?_eq_none hm]
    rfl
  | inr hn =>
    rw [hy.field?_eq_none hn]
    cases field? x <;> rfl

/-- A point with a number out of range is no query. -/
theorem IsPoint.query?_eq_none (h : IsPoint t n) (hout : ¬ FitsInt64 n) : query? t = none := by
  obtain ⟨x, ht, hx⟩ := h
  rw [ht, query?_point, hx.field?_eq_none hout]
  rfl

/-! ## Lines -/

section Parse

variable {source : String} (ht : IsBody source.toList t)
include ht

theorem parse_of_isLabel (h : IsLabel t) : parse source = .segment (String.ofList t) := by
  have hmark : occursIn labelMark t = true := (occursIn_iff labelMark t).mpr h
  unfold parse
  rw [isBody_iff.mp ht]
  exact if_pos hmark

theorem parse_of_not_isLabel (h : ¬ IsLabel t) :
    parse source = ((query? t).map WorkloadLine.query).getD .ignored := by
  have hmark : ¬ occursIn labelMark t = true := fun hoccurs =>
    h ((occursIn_iff labelMark t).mp hoccurs)
  unfold parse
  rw [isBody_iff.mp ht]
  simp only [if_neg hmark]
  cases query? t <;> rfl

theorem parse_eq_segment_iff {label : String} :
    parse source = .segment label ↔ label = String.ofList t ∧ IsLabel t := by
  by_cases h : IsLabel t
  · rw [parse_of_isLabel ht h]
    simp [h, eq_comm]
  · rw [parse_of_not_isLabel ht h]
    cases query? t <;> simp [h]

theorem parse_eq_query_iff {q : Query} :
    parse source = .query q ↔ ¬ IsLabel t ∧ query? t = some q := by
  by_cases h : IsLabel t
  · rw [parse_of_isLabel ht h]
    simp [h]
  · rw [parse_of_not_isLabel ht h]
    cases query? t <;> simp [h]

theorem parse_eq_ignored_iff : parse source = .ignored ↔ ¬ IsLabel t ∧ query? t = none := by
  by_cases h : IsLabel t
  · rw [parse_of_isLabel ht h]
    simp [h]
  · rw [parse_of_not_isLabel ht h]
    cases query? t <;> simp [h]

theorem parse_eq_range_iff : parse source = .query (.range a b) ↔ IsRange t a.toInt b.toInt := by
  rw [parse_eq_query_iff ht, query?_eq_range_iff]
  exact and_iff_right_of_imp IsRange.not_isLabel

theorem parse_eq_point_iff : parse source = .query (.point a) ↔ IsPoint t a.toInt := by
  rw [parse_eq_query_iff ht, query?_eq_point_iff]
  exact and_iff_right_of_imp IsPoint.not_isLabel

end Parse

/-! ## Printed queries -/

/-- An integer in decimal, with some zeros before its digits and blanks around it. -/
def IsPrinted (zeros : Nat) (n : Int) (text : List Char) : Prop :=
  ∃ before behind, text = before ++ decimal zeros n ++ behind ∧
    (∀ c ∈ before, isBlank c) ∧ ∀ c ∈ behind, isBlank c

theorem IsPrinted.isField {zeros : Nat} (h : IsPrinted zeros n text) : IsField text n := by
  obtain ⟨before, behind, htext, hbefore, hbehind⟩ := h
  exact ⟨before, _, behind, htext, hbefore, hbehind, signedDigits_decimal zeros n⟩

theorem parse_point_field {x : String} (hx : IsField x.toList a.toInt) :
    parse ("point:" ++ x) = .query (.point a) := by
  obtain ⟨field, hbody, hfield⟩ := hx.dropLineEnds "point:".toList
  rw [← String.toList_append] at hbody
  exact (parse_eq_point_iff (isBody_iff.mpr hbody)).mpr ⟨field, rfl, hfield⟩

theorem parse_range_field {x y : String} (hx : IsField x.toList a.toInt)
    (hy : IsField y.toList b.toInt) : parse ("range:" ++ x ++ "," ++ y) = .query (.range a b) := by
  obtain ⟨field, hbody, hfield⟩ := hy.dropLineEnds ("range:".toList ++ x.toList ++ ",".toList)
  rw [← String.toList_append, ← String.toList_append, ← String.toList_append] at hbody
  exact (parse_eq_range_iff (isBody_iff.mpr hbody)).mpr
    ⟨x.toList, field, by simp, hx.not_mem_comma, hx, hfield⟩

/-! ## The grammar -/

/-- A line is a label if it contains the word of a label, and else a range, a point or
nothing, by its form without the line ends behind it.  Numbers that do not fit in 64 bits
make no query.  All others do, however many zeros they are written with, and a query that is
printed with any blanks around its numbers is read back. -/
theorem parse_grammar :
    (∀ line : String, ∃ t, IsBody line.toList t ∧
      (∀ label, parse line = .segment label ↔ label = String.ofList t ∧ IsLabel t) ∧
      (∀ a b, parse line = .query (.range a b) ↔ IsRange t a.toInt b.toInt) ∧
      (∀ a, parse line = .query (.point a) ↔ IsPoint t a.toInt) ∧
      (parse line = .ignored ↔ ¬ IsLabel t ∧
        (∀ a b : Int64, ¬ IsRange t a.toInt b.toInt) ∧ ∀ a : Int64, ¬ IsPoint t a.toInt) ∧
      (∀ m n, IsRange t m n → ¬ FitsInt64 m ∨ ¬ FitsInt64 n → parse line = .ignored) ∧
      ∀ n, IsPoint t n → ¬ FitsInt64 n → parse line = .ignored) ∧
    (∀ a : Int64, decimal 0 a.toInt = (toString a).toList) ∧
    ∀ (a b : Int64) (i j : Nat) (x y : String),
      IsPrinted i a.toInt x.toList → IsPrinted j b.toInt y.toList →
        parse ("point:" ++ x) = .query (.point a) ∧
          parse ("range:" ++ x ++ "," ++ y) = .query (.range a b) := by
  refine ⟨fun line => ?_, fun a => decimal_zero a.toInt, fun a b i j x y hx hy => ?_⟩
  · have hbody := isBody_dropLineEnds line.toList
    refine ⟨_, hbody, fun _ => parse_eq_segment_iff hbody, fun _ _ => parse_eq_range_iff hbody,
      fun _ => parse_eq_point_iff hbody, ?_, fun m n hrange hout => ?_, fun n hpoint hout => ?_⟩
    · rw [parse_eq_ignored_iff hbody, query?_eq_none_iff]
    · exact (parse_eq_ignored_iff hbody).mpr ⟨hrange.not_isLabel, hrange.query?_eq_none hout⟩
    · exact (parse_eq_ignored_iff hbody).mpr ⟨hpoint.not_isLabel, hpoint.query?_eq_none hout⟩
  · exact ⟨parse_point_field hx.isField, parse_range_field hx.isField hy.isField⟩

/-- Zeros and blanks, a line end among them, change nothing, and the first integer above those
of 64 bits is ignored. -/
theorem parse_grammar_padded :
    parse ("point:" ++ " 007\n") = .query (.point 7) ∧
      parse ("range:" ++ " 007\n" ++ "," ++ "-3\t") = .query (.range 7 (-3)) ∧
      parse "point:9223372036854775808" = .ignored := by
  have hseven : IsPrinted 2 (7 : Int64).toInt " 007\n".toList :=
    ⟨[' '], ['\n'], by decide, List.forall_mem_singleton.mpr rfl,
      List.forall_mem_singleton.mpr rfl⟩
  have hthree : IsPrinted 0 (-3 : Int64).toInt "-3\t".toList :=
    ⟨[], ['\t'], by decide, by simp, List.forall_mem_singleton.mpr rfl⟩
  have hprinted := parse_grammar.2.2 7 (-3) 2 0 " 007\n" "-3\t" hseven hthree
  refine ⟨hprinted.1, hprinted.2, ?_⟩
  obtain ⟨t, hbody, -, -, -, -, -, hpoint⟩ := parse_grammar.1 "point:9223372036854775808"
  have ht : "point:9223372036854775808".toList = t := by
    rw [← isBody_iff.mp hbody]
    decide
  have hdigits : Digits "9223372036854775808".toList (2 ^ 63) :=
    ⟨by decide, List.all_eq_true.mp (by decide), by decide⟩
  have hform : IsPoint t ((2 ^ 63 : Nat) : Int) := by
    rw [← ht]
    exact ⟨_, rfl, [], _, [], (List.append_nil _).symm, by simp, by simp, .bare hdigits⟩
  exact hpoint _ hform (by decide)

end WorkloadLine

end StripePruning
