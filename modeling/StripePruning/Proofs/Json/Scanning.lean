import StripePruning.Json.Basic
import StripePruning.Proofs.Number.Numerals

/-!
# Cutting written tokens apart

Tokens that are written one after the other are cut apart at the same places, if no two atoms
are next to each other.

* `isPlain` are the characters of atoms; those of a numeral are plain (`isPlain_of_numeral`).
* `Behind` says which tokens a scanner has read, apart from where it stands.  `Behind.read_mark` and
  `Behind.read_string` are the tokens that end an atom, and `read_atom` is an atom.
* `Scans` says that tokens are read back.  It is closed under putting a mark or a string between two
  sequences (`Scans.join`), which is all that values are made of.
-/

namespace StripePruning

namespace Json

/-! ## Runs in a row -/

section Runs

variable {α σ : Type} {step : σ → α → Option σ} {s s' : σ} {result : Option σ}

theorem foldlM_cons_of {first : α} {rest : List α} (hfirst : step s first = some s')
    (hrest : rest.foldlM step s' = result) : (first :: rest).foldlM step s = result := by
  rw [List.foldlM_cons, hfirst]
  exact hrest

theorem foldlM_append_of {front back : List α} (hfront : front.foldlM step s = some s')
    (hback : back.foldlM step s' = result) : (front ++ back).foldlM step s = result := by
  rw [List.foldlM_append, hfront]
  exact hback

end Runs

/-! ## Characters of atoms -/

/-- Whether a character is part of an atom wherever it stands outside strings. -/
def isPlain (c : Char) : Bool :=
  !Scanner.isSpace c && c != '"' && (Scanner.mark? c).isNone

/-- Whether a character can be part of a numeral. -/
def isNumeric (c : Char) : Bool :=
  c.isDigit || ['-', '+', '.', 'e', 'E'].contains c

theorem isPlain_of_isNumeric {c : Char} (h : isNumeric c = true) : isPlain c = true := by
  have hspace : Scanner.isSpace c = false := by
    rw [Bool.eq_false_iff]
    intro hspace
    simp only [Scanner.isSpace, Bool.or_eq_true, decide_eq_true_eq] at hspace
    rcases hspace with ((rfl | rfl) | rfl) | rfl <;> exact absurd h (by decide)
  have hquote : c ≠ '"' := by
    intro hc
    rw [hc] at h
    exact absurd h (by decide)
  have hmark : Scanner.mark? c = none := by
    unfold Scanner.mark?
    split <;> first | rfl | exact absurd h (by decide)
  simp [isPlain, hspace, hquote, hmark]

theorem isNumeric_of_integerValue? {text : List Char} (h : (integerValue? text).isSome = true) :
    ∀ c, c ∈ text → isNumeric c = true := by
  intro c hc
  obtain ⟨n, hn⟩ := Option.isSome_iff_exists.1 h
  rcases (integerValue?_eq_some_iff.1 hn).mem hc with hdigit | rfl | rfl
  · rw [isNumeric, hdigit, Bool.true_or]
  · decide
  · decide

theorem isNumeric_of_exponentOf? {text : List Char}
    (h : (Numeral.exponentOf? text).isSome = true) : ∀ c, c ∈ text → isNumeric c = true := by
  cases text with
  | nil => exact fun c hc => absurd hc List.not_mem_nil
  | cons first rest =>
    rw [Numeral.exponentOf?] at h
    split at h
    · rename_i hfirst
      rw [Option.isSome_map] at h
      intro c hc
      rcases List.mem_cons.1 hc with rfl | hrest
      · rcases hfirst with rfl | rfl <;> decide
      · exact isNumeric_of_integerValue? h c hrest
    · exact absurd h (by decide)

private theorem isNumeric_of_takeWhile {text : List Char} {c : Char}
    (hc : c ∈ text.takeWhile Char.isDigit) : isNumeric c = true := by
  have hdigit : c.isDigit = true := List.all_eq_true.1 List.all_takeWhile c hc
  rw [isNumeric, hdigit, Bool.true_or]

/-- What stands behind the whole digits of a numeral. -/
theorem isNumeric_of_fractionOf? {text fraction rest : List Char}
    (h : Numeral.fractionOf? text = some (fraction, rest))
    (hrest : ∀ c, c ∈ rest → isNumeric c = true) : ∀ c, c ∈ text → isNumeric c = true := by
  unfold Numeral.fractionOf? at h
  split at h
  · rename_i behind
    dsimp only at h
    split at h
    · exact absurd h (by simp)
    · obtain ⟨-, rfl⟩ := Prod.mk.inj (Option.some.inj h)
      intro c hc
      rcases List.mem_cons.1 hc with rfl | hbehind
      · decide
      · rw [← List.takeWhile_append_dropWhile (p := Char.isDigit) (l := behind),
          List.mem_append] at hbehind
        rcases hbehind with hdigit | hlater
        · exact isNumeric_of_takeWhile hdigit
        · exact hrest c hlater
  · obtain ⟨-, rfl⟩ := Prod.mk.inj (Option.some.inj h)
    exact hrest

theorem isNumeric_of_ofMagnitude? {negative : Bool} {text : List Char}
    (h : (Numeral.ofMagnitude? negative text).isSome = true) :
    text ≠ [] ∧ ∀ c, c ∈ text → isNumeric c = true := by
  obtain ⟨numeral, hnumeral⟩ := Option.isSome_iff_exists.1 h
  simp only [Numeral.ofMagnitude?, Option.bind_eq_bind, Option.bind_eq_some_iff] at hnumeral
  obtain ⟨⟨fraction, rest⟩, hfraction, exponent, hexponent, hwhole⟩ := hnumeral
  have hrest := isNumeric_of_exponentOf? (Option.isSome_iff_exists.2 ⟨exponent, hexponent⟩)
  have hbehind := isNumeric_of_fractionOf? hfraction hrest
  constructor
  · intro hnil
    rw [hnil] at hwhole
    exact absurd hwhole (by simp [Numeral.isWhole])
  · intro c hc
    rw [← List.takeWhile_append_dropWhile (p := Char.isDigit) (l := text), List.mem_append] at hc
    rcases hc with hdigit | hlater
    · exact isNumeric_of_takeWhile hdigit
    · exact hbehind c hlater

/-- A numeral has no characters but those of atoms. -/
theorem isPlain_of_numeral {text : List Char} (h : (Numeral.ofChars? text).isSome = true) :
    text ≠ [] ∧ ∀ c, c ∈ text → isPlain c = true := by
  unfold Numeral.ofChars? at h
  split at h
  · rename_i behind
    refine ⟨List.cons_ne_nil _ _, fun c hc => isPlain_of_isNumeric ?_⟩
    rcases List.mem_cons.1 hc with rfl | hbehind
    · decide
    · exact (isNumeric_of_ofMagnitude? h).2 c hbehind
  · obtain ⟨hne, hnumeric⟩ := isNumeric_of_ofMagnitude? h
    exact ⟨hne, fun c hc => isPlain_of_isNumeric (hnumeric c hc)⟩

/-! ## One token -/

/-- The scanner between tokens, with some tokens read. -/
def fresh (read : List Token) : Scanner :=
  { tokens := read.toArray }

/-- A scanner has read some tokens, the last of which may be an atom that has not ended yet. -/
def Scanner.Behind (s : Scanner) (read : List Token) : Prop :=
  s.endAtom = fresh read

variable {s : Scanner} {read : List Token}

theorem behind_fresh (read : List Token) : (fresh read).Behind read := rfl

theorem fresh_concat (read : List Token) (token : Token) :
    (fresh read).emit token = fresh (read ++ [token]) := by
  simp [fresh, Scanner.emit]

namespace Scanner

/-- A scanner that has read some tokens is between two of them or in an atom. -/
theorem Behind.eq_fresh_or (h : s.Behind read) :
    s = fresh read ∨ ∃ chars tokens, s = { place := .atom chars, tokens } := by
  obtain ⟨place, tokens⟩ := s
  cases place with
  | betweenTokens => exact Or.inl h
  | atom chars => exact Or.inr ⟨chars, tokens, rfl⟩
  | string units => cases h
  | escape units => cases h
  | code units value digits => cases h

/-- The next character is outside strings. -/
theorem Behind.step?_eq (h : s.Behind read) (c : Char) : s.step? c = some (s.outside c) := by
  rcases h.eq_fresh_or with rfl | ⟨chars, tokens, rfl⟩ <;> rfl

/-- At the end of the text an atom ends. -/
theorem Behind.finish?_eq (h : s.Behind read) : s.finish? = some read := by
  have hend : s.endAtom = fresh read := h
  rcases h.eq_fresh_or with rfl | ⟨chars, tokens, rfl⟩
  · rfl
  · show some (endAtom { place := .atom chars, tokens }).tokens.toList = some read
    rw [hend]
    rfl

/-- A mark ends an atom. -/
theorem Behind.step?_mark (h : s.Behind read) {c : Char} {token : Token}
    (hspace : isSpace c = false) (hquote : c ≠ '"') (hmark : mark? c = some token) :
    s.step? c = some (fresh (read ++ [token])) := by
  rw [h.step?_eq, outside, hspace, if_neg (by decide), if_neg hquote, hmark, ← fresh_concat, ← h]

/-- A quote ends an atom too. -/
theorem Behind.step?_quote (h : s.Behind read) :
    s.step? '"' = some { place := .string [], tokens := read.toArray } := by
  rw [h.step?_eq, outside, if_neg (by decide), if_pos rfl, h]
  rfl

/-- A plain character begins or continues an atom. -/
theorem step?_plain {c : Char} (hc : isPlain c = true) (tokens : Array Token) :
    step? { place := .betweenTokens, tokens } c = some { place := .atom [c], tokens } ∧
      ∀ chars, step? { place := .atom chars, tokens } c
        = some { place := .atom (c :: chars), tokens } := by
  simp only [isPlain, Bool.and_eq_true, Bool.not_eq_true', bne_iff_ne, Option.isNone_iff_eq_none]
    at hc
  obtain ⟨⟨hspace, hquote⟩, hmark⟩ := hc
  simp only [step?, outside, hspace, hquote, hmark, Bool.false_eq_true, if_false, implies_true,
    and_self]

theorem foldlM_plain {text : List Char} (htext : ∀ c, c ∈ text → isPlain c = true)
    (chars : List Char) (tokens : Array Token) :
    text.foldlM step? { place := .atom chars, tokens }
      = some { place := .atom (text.reverse ++ chars), tokens } := by
  induction text generalizing chars with
  | nil => rfl
  | cons c rest ih =>
    have hstep := (step?_plain (htext c List.mem_cons_self) tokens).2 chars
    have hrest := ih (fun d hd => htext d (List.mem_cons_of_mem c hd)) (c :: chars)
    rw [List.reverse_cons, List.append_assoc]
    exact foldlM_cons_of hstep hrest

/-- An atom is read from between two tokens. -/
theorem foldlM_atom {text : String} (hne : text.toList ≠ [])
    (hplain : ∀ c, c ∈ text.toList → isPlain c = true) (read : List Token) :
    ∃ s, text.toList.foldlM step? (fresh read) = some s ∧ s.Behind (read ++ [.atom text]) := by
  obtain ⟨c, rest, hchars⟩ := List.exists_cons_of_ne_nil hne
  rw [hchars] at hplain
  have hstep := (step?_plain (hplain c List.mem_cons_self) read.toArray).1
  have hrest := foldlM_plain (fun d hd => hplain d (List.mem_cons_of_mem c hd)) [c] read.toArray
  refine ⟨{ place := .atom (rest.reverse ++ [c]), tokens := read.toArray }, ?_, ?_⟩
  · rw [hchars]
    exact foldlM_cons_of hstep hrest
  · have htext : String.ofList (rest.reverse ++ [c]).reverse = text := by
      rw [List.reverse_append, List.reverse_reverse, List.reverse_singleton, List.singleton_append,
        ← hchars, String.ofList_toList]
    rw [Behind, ← fresh_concat, ← htext]
    rfl

end Scanner

/-! ## Strings -/

/-- An element of a string stands for a character. -/
def Unit16.StandsFor (unit : Unit16) (c : Char) : Prop :=
  ∀ done rest, decodeUnits done (unit :: rest) = decodeUnits (c :: done) rest

theorem standsFor_char (c : Char) : (Unit16.char c).StandsFor c :=
  fun _ _ => rfl

/-- A code unit below the halves of surrogate pairs stands for its character. -/
theorem standsFor_code {c : Char} (hc : c.toNat < 32) : (Unit16.code c.toNat).StandsFor c := by
  intro done rest
  have hlow : isLowHalf c.toNat = false := by
    simp only [isLowHalf, Bool.and_eq_false_iff, decide_eq_false_iff_not]
    omega
  have hhigh : isHighHalf c.toNat = false := by
    simp only [isHighHalf, Bool.and_eq_false_iff, decide_eq_false_iff_not]
    omega
  conv_lhs => unfold decodeUnits
  rw [hlow, hhigh, Char.ofNat_toNat]
  rfl

theorem hexValue?_digitChar : ∀ n, n < 16 → hexValue? n.digitChar = some n := by
  decide

/-- A code unit is read from its last two digits, since those before them are zeros. -/
theorem foldlM_hexPair {n : Nat} (hn : n < 32) (units : List Unit16) (tokens : Array Token) :
    ("\\u00" ++ hexPair n).toList.foldlM Scanner.step? { place := .string units, tokens }
      = some { place := .string (.code n :: units), tokens } := by
  have hhigh := hexValue?_digitChar (n / 16) (by omega)
  have hlow := hexValue?_digitChar (n % 16) (by omega)
  have hvalue : 16 * (16 * 0 + n / 16) + n % 16 = n := by omega
  have hzeros : "\\u00".toList.foldlM Scanner.step? { place := .string units, tokens }
      = some { place := .code units 0 2, tokens } := rfl
  have hfirst : Scanner.step? { place := .code units 0 2, tokens } (n / 16).digitChar
      = some { place := .code units (16 * 0 + n / 16) 1, tokens } := by
    show Scanner.code? _ units 0 2 _ = _
    rw [Scanner.code?, hhigh]
    rfl
  have hsecond : Scanner.step? { place := .code units (16 * 0 + n / 16) 1, tokens }
      (n % 16).digitChar = some { place := .string (.code n :: units), tokens } := by
    show Scanner.code? _ units (16 * 0 + n / 16) 1 _ = _
    rw [Scanner.code?, hlow, Option.map_some, hvalue]
    rfl
  have hpair : (hexPair n).toList = [(n / 16).digitChar, (n % 16).digitChar] :=
    String.toList_ofList
  rw [String.toList_append, hpair]
  exact foldlM_append_of hzeros (foldlM_cons_of hfirst (foldlM_cons_of hsecond rfl))

/-- A character of a string is read from what is written for it. -/
theorem foldlM_escapedText (c : Char) (units : List Unit16) (tokens : Array Token) :
    ∃ unit : Unit16, unit.StandsFor c ∧
      (escapedText c).toList.foldlM Scanner.step? { place := .string units, tokens }
        = some { place := .string (unit :: units), tokens } := by
  unfold escapedText
  -- The seven characters with a short escape.
  iterate 7
    split
    · rename_i hc
      exact ⟨_, standsFor_char c, hc ▸ rfl⟩
  rename_i hquote hslash _ _ _ _ _
  split
  · rename_i hcontrol
    exact ⟨_, standsFor_code hcontrol, foldlM_hexPair hcontrol units tokens⟩
  · rename_i hcontrol
    refine ⟨_, standsFor_char c, ?_⟩
    have hstep : Scanner.step? { place := .string units, tokens } c
        = some { place := .string (.char c :: units), tokens } := by
      show Scanner.inside? _ units c = _
      rw [Scanner.inside?, if_neg hquote, if_neg hslash, if_neg hcontrol]
    rw [String.toList_singleton]
    exact foldlM_cons_of hstep rfl

/-- The characters of a string are read one after the other. -/
theorem foldlM_flatMap_escapedText (chars : List Char) (units : List Unit16)
    (tokens : Array Token) :
    ∃ more : List Unit16,
      (∀ done rest, decodeUnits done (more.reverse ++ rest)
        = decodeUnits (chars.reverse ++ done) rest) ∧
      (chars.flatMap fun c => (escapedText c).toList).foldlM Scanner.step?
          { place := .string units, tokens } = some { place := .string (more ++ units), tokens } := by
  induction chars generalizing units with
  | nil => exact ⟨[], fun done rest => rfl, rfl⟩
  | cons c others ih =>
    obtain ⟨unit, hunit, hfirst⟩ := foldlM_escapedText c units tokens
    obtain ⟨more, hmore, hrest⟩ := ih (unit :: units)
    refine ⟨more ++ [unit], fun done rest => ?_, ?_⟩
    · rw [List.reverse_concat, List.cons_append, hunit, hmore, List.reverse_cons,
        List.append_assoc, List.singleton_append]
    · rw [List.flatMap_cons, List.append_assoc]
      exact foldlM_append_of hfirst hrest

/-- A string ends an atom, and it is read as the text that is written. -/
theorem Scanner.Behind.foldlM_quoted (h : s.Behind read) (text : String) :
    (quoted text).toList.foldlM step? s = some (fresh (read ++ [.string (some text)])) := by
  obtain ⟨units, hunits, hchars⟩ := foldlM_flatMap_escapedText text.toList [] read.toArray
  have hdecode : decodeUnits [] units.reverse = some text := by
    have hall := hunits [] []
    rw [List.append_nil, List.append_nil] at hall
    rw [hall, decodeUnits, List.reverse_reverse, String.ofList_toList]
  have hjoin : (String.join (text.toList.map escapedText)).toList
      = text.toList.flatMap fun c => (escapedText c).toList := by
    rw [String.toList_join, List.flatMap_map]
  rw [List.append_nil] at hchars
  have hclose : step? { place := .string units, tokens := read.toArray } '"'
      = some (fresh (read ++ [.string (some text)])) := by
    show inside? _ units '"' = _
    rw [inside?, if_pos rfl, hdecode, ← fresh_concat]
    rfl
  rw [quoted, String.toList_append, String.toList_append, hjoin]
  exact foldlM_append_of (foldlM_cons_of h.step?_quote hchars) (foldlM_cons_of hclose rfl)

/-! ## Sequences of tokens -/

/-- The characters of some tokens. -/
def charsOf (tokens : List Token) : List Char :=
  tokens.flatMap fun token => token.text.toList

/-- Whether a token ends an atom and can be read back. -/
def Token.isDelimiter : Token → Bool
  | .atom _ => false
  | .string text => text.isSome
  | _ => true

/-- Tokens are read back, from between two tokens on. -/
def Scans (tokens : List Token) : Prop :=
  ∀ read, ∃ s, (charsOf tokens).foldlM Scanner.step? (fresh read) = some s ∧
    s.Behind (read ++ tokens)

theorem scans_nil : Scans [] := by
  intro read
  refine ⟨fresh read, rfl, ?_⟩
  rw [List.append_nil]
  exact behind_fresh read

theorem scans_atom {text : String} (hne : text.toList ≠ [])
    (hplain : ∀ c, c ∈ text.toList → isPlain c = true) : Scans [.atom text] := by
  intro read
  have hchars : charsOf [.atom text] = text.toList := List.append_nil _
  rw [hchars]
  exact Scanner.foldlM_atom hne hplain read

theorem Scanner.Behind.foldlM_delimiter (h : s.Behind read) {token : Token}
    (htoken : token.isDelimiter = true) :
    token.text.toList.foldlM step? s = some (fresh (read ++ [token])) := by
  have hmark {c : Char} {mark : Token} (hc : mark? c = some mark) (hspace : isSpace c = false)
      (hquote : c ≠ '"') : [c].foldlM step? s = some (fresh (read ++ [mark])) :=
    foldlM_cons_of (h.step?_mark hspace hquote hc) rfl
  cases token with
  | openArray => exact hmark rfl (by decide) (by decide)
  | closeArray => exact hmark rfl (by decide) (by decide)
  | openObject => exact hmark rfl (by decide) (by decide)
  | closeObject => exact hmark rfl (by decide) (by decide)
  | comma => exact hmark rfl (by decide) (by decide)
  | colon => exact hmark rfl (by decide) (by decide)
  | string text =>
    obtain ⟨text, rfl⟩ := Option.isSome_iff_exists.1 htoken
    exact h.foldlM_quoted text
  | atom text => exact absurd htoken Bool.false_ne_true

/-- A delimiter may stand between any tokens. -/
theorem Scans.join {before behind : List Token} (hbefore : Scans before) {token : Token}
    (htoken : token.isDelimiter = true) (hbehind : Scans behind) :
    Scans (before ++ token :: behind) := by
  intro read
  obtain ⟨s, hs, hread⟩ := hbefore read
  obtain ⟨s', hs', hread'⟩ := hbehind (read ++ before ++ [token])
  refine ⟨s', ?_, ?_⟩
  · rw [charsOf, List.flatMap_append, List.flatMap_cons]
    exact foldlM_append_of hs (foldlM_append_of (hread.foldlM_delimiter htoken) hs')
  · rwa [List.append_assoc, List.append_assoc] at hread'

/-- A text that is made of such tokens is cut into them. -/
theorem Scans.scan?_eq {tokens : List Token} (h : Scans tokens) :
    Token.scan? (String.join (tokens.map Token.text)) = some tokens := by
  obtain ⟨s, hs, hread⟩ := h []
  have hchars : (String.join (tokens.map Token.text)).toList = charsOf tokens := by
    rw [String.toList_join, List.flatMap_map, charsOf]
  have hfinish : s.finish? = some tokens := by
    rw [hread.finish?_eq, List.nil_append]
  rw [Token.scan?, hchars]
  show ((charsOf tokens).foldlM Scanner.step? (fresh []) >>= fun s => s.finish?) = _
  rw [hs]
  exact hfinish

end Json

end StripePruning
