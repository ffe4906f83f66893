import StripePruning.Proofs.Text.Decoding
import StripePruning.Proofs.Workload.Grammar
import StripePruning.Proofs.Workload.Groups

/-!
# How a trace is written down

A trace is read from bytes, which are cut into lines.  A replay only sees what the lines say.

* `Trace.ofBytes_toUTF8` reads the bytes of a text, and `Trace.ofBytes_of_not_text` bytes
  with a line that is not text: what follows that line is never looked at.
* `statements` is what the lines of a text say, those that say nothing apart.  It does not
  change with the line ends: `statements_concat`, `statements_append_newline` and
  `statements_of_returned`.
* `Replay.run_congr` says that a replay depends on the statements only, and `Replay.run_rewritten`
  what that comes to for a text that is written down in another way.
-/

namespace StripePruning

/-! ## Line ends behind a line -/

namespace WorkloadLine

theorem dropLineEnds_append_ends (line : List Char) {ends : List Char}
    (hends : ∀ c ∈ ends, isLineEnd c = true) : dropLineEnds (line ++ ends) = dropLineEnds line := by
  have hreverse : ∀ c ∈ ends.reverse, isLineEnd c = true := by simpa using hends
  unfold dropLineEnds
  rw [List.reverse_append, List.dropWhile_append_of_pos hreverse]

/-- What a line says does not depend on the line ends behind it. -/
theorem parse_congr {line other : List Char} (h : dropLineEnds line = dropLineEnds other) :
    parse (String.ofList line) = parse (String.ofList other) := by
  unfold parse
  rw [String.toList_ofList, String.toList_ofList, h]

theorem parse_append_ends (line : List Char) {ends : List Char}
    (hends : ∀ c ∈ ends, isLineEnd c = true) :
    parse (String.ofList (line ++ ends)) = parse (String.ofList line) :=
  parse_congr (dropLineEnds_append_ends line hends)

theorem parse_dropLineEnds (line : List Char) :
    parse (String.ofList (dropLineEnds line)) = parse (String.ofList line) := by
  obtain ⟨⟨ends, hline, hends⟩, -⟩ := isBody_dropLineEnds line
  have hparse := parse_append_ends (dropLineEnds line) fun c hc =>
    (isLineEnd_iff c).mpr (hends c hc)
  rw [← hline] at hparse
  exact hparse.symm

/-- Which line ends are dropped is seen behind the first character already. -/
theorem dropLineEnds_cons_congr (c : Char) {line other : List Char}
    (h : dropLineEnds line = dropLineEnds other) :
    dropLineEnds (c :: line) = dropLineEnds (c :: other) := by
  unfold dropLineEnds at h ⊢
  rw [List.reverse_inj] at h
  rw [List.reverse_cons, List.reverse_cons, List.dropWhile_append, List.dropWhile_append, h]

end WorkloadLine

namespace Trace

open WorkloadLine

variable {before behind line text : List Char}

/-- The end of a line consists of line ends. -/
theorem exists_withoutEnd_append (line : List Char) :
    ∃ ends, line = withoutEnd line ++ ends ∧ ∀ c ∈ ends, isLineEnd c = true := by
  unfold withoutEnd
  split
  · rename_i rest hline
    refine ⟨['\r', '\n'], ?_, by simp [isLineEnd]⟩
    rw [← List.reverse_reverse line, hline]
    simp
  · rename_i rest _ hline
    refine ⟨['\n'], ?_, by simp [isLineEnd]⟩
    rw [← List.reverse_reverse line, hline]
    simp
  · exact ⟨[], (List.append_nil line).symm, by simp⟩

theorem parse_withoutEnd (line : List Char) :
    parse (String.ofList (withoutEnd line)) = parse (String.ofList line) := by
  obtain ⟨ends, hline, hends⟩ := exists_withoutEnd_append line
  rw [← parse_append_ends _ hends, ← hline]

/-! ## Bytes -/

/-- The bytes of a text are read as the text. -/
theorem ofBytes_toUTF8 (text : String) : ofBytes text.toUTF8 = ofText text := by
  have htext : String.fromUTF8? text.toUTF8 = some text :=
    textOf?_eq_some_iff.mpr (data_toUTF8 text)
  unfold ofBytes
  rw [htext]

/-- Bytes with a line that is not text are read up to this line, whatever follows it. -/
theorem ofBytes_of_pieces {bytes : ByteArray} {lines : List (List Char)} {bad : List UInt8}
    {others : List (List UInt8)} (hbad : textOf? bad = none)
    (hcut : cutBehind (· == lineFeed) bytes.data.toList = lines.map bytesOf ++ bad :: others) :
    ofBytes bytes
      = { lines := lines.map fun line => String.ofList (withoutEnd line), ending := .broken } := by
  have hnone : String.fromUTF8? bytes = none := by
    rw [Option.eq_none_iff_forall_ne_some]
    intro text htext
    have hbytes : bytes.data.toList = bytesOf text.toList := textOf?_eq_some_iff.mp htext
    -- Every line of a text is text.
    rw [hbytes, cutBehind_bytesOf] at hcut
    have hmem : bad ∈ (cutBehind (· == '\n') text.toList).map bytesOf := by
      rw [hcut]
      simp
    obtain ⟨piece, -, hpiece⟩ := List.mem_map.mp hmem
    rw [← hpiece, textOf?_bytesOf] at hbad
    cases hbad
  have htexts : textsOf (cutBehind (· == lineFeed) bytes.data.toList)
      = lines.map String.ofList := by
    rw [hcut, textsOf_append lines hbad others]
  unfold ofBytes
  rw [hnone, toList_eq_data_toList]
  show ({ lines := (textsOf (cutBehind (· == lineFeed) _)).map _, ending := _ } : Trace) = _
  rw [htexts, List.map_map]
  simp [Function.comp_def]

/-- Behind a text of whole lines, a line that is not text ends the trace.  What comes after it
does not matter. -/
theorem ofBytes_of_not_text {front : String} {bad behind : ByteArray}
    (hfront : EndsInMark (· == '\n') front.toList) (hbad : String.fromUTF8? bad = none)
    (hline : lineFeed ∉ bad.data.toList)
    (hbehind : ∀ byte, behind.data.toList.head? = some byte → byte = lineFeed) :
    ofBytes (front.toUTF8 ++ bad ++ behind)
      = { lines := (ofText front).lines, ending := .broken } := by
  have hunmarked := beq_eq_false_of_not_mem hline
  have hne : bad.data.toList ≠ [] := by
    intro hnil
    have hempty : textOf? bad.data.toList = some "" := by
      rw [hnil]
      exact textOf?_bytesOf []
    exact absurd hempty (by rw [show textOf? bad.data.toList = none from hbad]; simp)
  -- The line that is not text, with the line feed behind it if there is one.
  have hpieces : ∃ piece others, textOf? piece = none ∧
      cutBehind (· == lineFeed) (bad.data.toList ++ behind.data.toList) = piece :: others := by
    cases hrest : behind.data.toList with
    | nil =>
      refine ⟨bad.data.toList, [], hbad, ?_⟩
      rw [List.append_nil]
      exact cutBehind_of_unmarked hunmarked hne
    | cons byte rest =>
      have hfeed : byte = lineFeed := hbehind byte (by rw [hrest]; rfl)
      refine ⟨bad.data.toList ++ [lineFeed], cutBehind (· == lineFeed) rest,
        textOf?_append_lineFeed hbad, ?_⟩
      refine cutBehind_unmarked_append hunmarked ?_
      rw [cutBehind_cons, hfeed]
      exact attach_of_mark (· == lineFeed) (beq_self_eq_true lineFeed) _
  obtain ⟨piece, others, hpiece, hcut⟩ := hpieces
  have hbytes : (front.toUTF8 ++ bad ++ behind).data.toList
      = bytesOf front.toList ++ (bad.data.toList ++ behind.data.toList) := by
    rw [ByteArray.toList_data_append, ByteArray.toList_data_append, data_toUTF8,
      List.append_assoc]
  have hall : cutBehind (· == lineFeed) (front.toUTF8 ++ bad ++ behind).data.toList
      = (cutBehind (· == '\n') front.toList).map bytesOf ++ piece :: others := by
    rw [hbytes, cutBehind_append (endsInMark_bytesOf hfront), cutBehind_bytesOf, hcut]
  exact ofBytes_of_pieces hpiece hall

/-! ## What a text says -/

/-- What the lines of a text say, those that say nothing apart. -/
def statements (text : List Char) : List WorkloadLine :=
  ((linesOf text).map parse).filter (· ≠ .ignored)

/-- The line ends need not be dropped before it is asked what a line says. -/
theorem statements_eq (text : List Char) :
    statements text
      = ((cutBehind (· == '\n') text).map fun piece => parse (String.ofList piece)).filter
          (· ≠ .ignored) := by
  unfold statements linesOf
  rw [List.map_map]
  simp only [Function.comp_def, parse_withoutEnd]

theorem statements_append (hbefore : EndsInMark (· == '\n') before) (behind : List Char) :
    statements (before ++ behind) = statements before ++ statements behind := by
  simp only [statements_eq, cutBehind_append hbefore, List.map_append, List.filter_append]

/-- A line says the same with or without a line end behind it. -/
theorem statements_concat (hline : '\n' ∉ line) :
    statements (line ++ ['\n']) = statements line := by
  have hunmarked := beq_eq_false_of_not_mem hline
  have hends : parse (String.ofList (line ++ ['\n'])) = parse (String.ofList line) :=
    parse_append_ends line (by simp [isLineEnd])
  rw [statements_eq, statements_eq, cutBehind_marked hunmarked (beq_self_eq_true '\n')]
  cases line with
  | nil => rfl
  | cons c line =>
    rw [cutBehind_of_unmarked hunmarked (List.cons_ne_nil c line), List.map_singleton, hends,
      List.map_singleton]

theorem statements_of_ignored (hline : '\n' ∉ line)
    (hignored : parse (String.ofList line) = .ignored) : statements line = [] := by
  rw [statements_eq]
  cases line with
  | nil => rfl
  | cons c line =>
    rw [cutBehind_of_unmarked (beq_eq_false_of_not_mem hline) (List.cons_ne_nil c line),
      List.map_singleton, hignored]
    rfl

theorem exists_last_line (text : List Char) :
    ∃ before line, text = before ++ line ∧ EndsInMark (· == '\n') before ∧ '\n' ∉ line := by
  induction text using List.reverseRecOn with
  | nil => exact ⟨[], [], rfl, by simp [EndsInMark], List.not_mem_nil⟩
  | append_singleton text c ih =>
    obtain ⟨before, line, htext, hbefore, hline⟩ := ih
    by_cases hc : c = '\n'
    · have hmark : (c == '\n') = true := beq_iff_eq.mpr hc
      exact ⟨text ++ [c], [], (List.append_nil _).symm,
        endsInMark_concat (· == '\n') hmark text, List.not_mem_nil⟩
    · refine ⟨before, line ++ [c], by rw [htext, List.append_assoc], hbefore, ?_⟩
      simp [hline, Ne.symm hc]

/-- A line feed at the very end says nothing. -/
theorem statements_append_newline (text : List Char) :
    statements (text ++ ['\n']) = statements text := by
  obtain ⟨before, line, rfl, hbefore, hline⟩ := exists_last_line text
  rw [List.append_assoc, statements_append hbefore, statements_append hbefore,
    statements_concat hline]

/-- Lines that say nothing may stand between any two lines. -/
theorem statements_insert (hbefore : EndsInMark (· == '\n') before) (hline : '\n' ∉ line)
    (hignored : parse (String.ofList line) = .ignored) (behind : List Char) :
    statements (before ++ (line ++ ['\n']) ++ behind) = statements (before ++ behind) := by
  have hends : EndsInMark (· == '\n') (line ++ ['\n']) :=
    endsInMark_concat (· == '\n') (beq_self_eq_true '\n') line
  rw [List.append_assoc, statements_append hbefore, statements_append hends,
    statements_concat hline, statements_of_ignored hline hignored, List.nil_append,
    statements_append hbefore]

/-- A text in which some line feeds have got a carriage return before them. -/
inductive Returned : List Char → List Char → Prop
  | nil : Returned [] []
  | keep (c : Char) {text other : List Char} (h : Returned text other) :
    Returned (c :: text) (c :: other)
  | feed {text other : List Char} (h : Returned text other) :
    Returned ('\n' :: text) ('\r' :: '\n' :: other)

/-- A text with a carriage return before each line feed. -/
def withReturns (text : List Char) : List Char :=
  text.flatMap fun c => if c = '\n' then ['\r', '\n'] else [c]

theorem returned_withReturns (text : List Char) : Returned text (withReturns text) := by
  unfold withReturns
  induction text with
  | nil => exact .nil
  | cons c rest ih =>
    rw [List.flatMap_cons]
    by_cases hc : c = '\n'
    · rw [hc, if_pos rfl]
      exact .feed ih
    · rw [if_neg hc]
      exact .keep c ih

/-- A text with further returns is cut into the same lines, line ends apart. -/
theorem map_dropLineEnds_of_returned {other : List Char} (h : Returned text other) :
    (cutBehind (· == '\n') other).map dropLineEnds
      = (cutBehind (· == '\n') text).map dropLineEnds := by
  induction h with
  | nil => rfl
  | keep c _ ih =>
    rw [cutBehind_cons, cutBehind_cons]
    exact map_attach_congr (fun _ _ => dropLineEnds_cons_congr c) ih
  | feed _ ih =>
    rw [cutBehind_cons, cutBehind_cons, cutBehind_cons]
    show [_] ++ List.map dropLineEnds _ = [_] ++ List.map dropLineEnds _
    rw [ih]
    rfl

/-- What the lines say does not depend on how they end. -/
theorem statements_of_returned {other : List Char} (h : Returned text other) :
    statements other = statements text := by
  have hparse : ∀ pieces : List (List Char),
      pieces.map (fun piece => parse (String.ofList piece))
        = (pieces.map dropLineEnds).map fun line => parse (String.ofList line) := by
    intro pieces
    simp only [List.map_map, Function.comp_def, parse_dropLineEnds]
  rw [statements_eq, statements_eq, hparse, map_dropLineEnds_of_returned h, ← hparse]

end Trace

/-! ## Replays -/

namespace Group

open WorkloadLine

/-- Lines that say nothing belong to no group. -/
theorem ofLines_filter (lines : List WorkloadLine) :
    ofLines (lines.filter (· ≠ .ignored)) = ofLines lines := by
  induction lines with
  | nil => rfl
  | cons line rest ih =>
    obtain ⟨hqueries, hlabelled⟩ := List.cons.inj ih
    cases line <;> simp_all [ofLines, labelled]

end Group

namespace Replay

open WorkloadLine Trace

variable {text other : String}

/-- A replay depends on what the lines say only. -/
theorem run_congr (index : Index) (n : Nat)
    (h : statements text.toList = statements other.toList) :
    run index n (ofBytes text.toUTF8) = run index n (ofBytes other.toUTF8) := by
  choose answer hanswer using fun query : Query => query.qualifyingStripes_ok index n
  have hrun := run_eq_ofEvents (fun query => (answer query).count)
    fun query => ⟨answer query, (hanswer query).1, rfl⟩
  rw [ofBytes_toUTF8, ofBytes_toUTF8]
  unfold ofText
  rw [hrun, hrun, ← Group.ofLines_filter, ← Group.ofLines_filter ((linesOf other.toList).map _)]
  exact congrArg (fun lines => Outcome.ofEvents ((Group.ofLines lines).flatMap _)) h

/-- The outcome of a replay does not depend on how its trace is written down.  It stays the same if
each line feed gets a carriage return before it or only some of them do, if a line feed is added
at the very end, and if a line that says nothing is added between two lines, before them or
behind them. -/
theorem run_rewritten (index : Index) (n : Nat) (text : String) :
    run index n (ofBytes (String.ofList (withReturns text.toList)).toUTF8)
        = run index n (ofBytes text.toUTF8) ∧
      (∀ other : String, Returned text.toList other.toList →
        run index n (ofBytes other.toUTF8) = run index n (ofBytes text.toUTF8)) ∧
      run index n (ofBytes (text ++ "\n").toUTF8) = run index n (ofBytes text.toUTF8) ∧
      ∀ line : String, '\n' ∉ line.toList → parse line = .ignored →
        run index n (ofBytes (text ++ "\n" ++ line).toUTF8) = run index n (ofBytes text.toUTF8) ∧
        ∀ before behind : String, text = before ++ behind →
          (before = "" ∨ ∃ front, before = front ++ "\n") →
          run index n (ofBytes (before ++ line ++ "\n" ++ behind).toUTF8)
            = run index n (ofBytes text.toUTF8) := by
  refine ⟨run_congr index n ?_, fun other hother => run_congr index n ?_, run_congr index n ?_,
    fun line hline hignored => ⟨?_, ?_⟩⟩
  · rw [String.toList_ofList]
    exact statements_of_returned (returned_withReturns text.toList)
  · exact statements_of_returned hother
  · rw [String.toList_append]
    exact statements_append_newline text.toList
  · apply run_congr
    have hends : EndsInMark (· == '\n') (text ++ "\n").toList := by
      rw [String.toList_append]
      exact endsInMark_concat (· == '\n') (beq_self_eq_true '\n') text.toList
    rw [String.toList_append, statements_append hends,
      statements_of_ignored hline (by rwa [String.ofList_toList]), List.append_nil,
      String.toList_append]
    exact statements_append_newline text.toList
  · rintro before behind rfl hbefore
    apply run_congr
    have hends : EndsInMark (· == '\n') before.toList := by
      cases hbefore with
      | inl hempty => simp [hempty, EndsInMark]
      | inr hfront =>
        obtain ⟨front, rfl⟩ := hfront
        rw [String.toList_append]
        exact endsInMark_concat (· == '\n') (beq_self_eq_true '\n') front.toList
    have hinsert := statements_insert hends hline (by rwa [String.ofList_toList]) behind.toList
    simp only [String.toList_append, List.append_assoc] at hinsert ⊢
    exact hinsert

/-- A comment that ends in a carriage return is put between a label and its query. -/
theorem run_rewritten_comment :
    '\n' ∉ "# pause\r".toList ∧ parse "# pause\r" = .ignored ∧
      run fourRows 2 (ofBytes ("selectivity 1\n" ++ "# pause\r" ++ "\n" ++ "point:7").toUTF8)
        = run fourRows 2 (ofBytes ("selectivity 1\n" ++ "point:7").toUTF8) ∧
      blocksOf (run fourRows 2 (ofBytes ("selectivity 1\n" ++ "point:7").toUTF8)) = some [1] := by
  have hline : '\n' ∉ "# pause\r".toList := by decide
  have hignored : parse "# pause\r" = .ignored := by decide +kernel
  have hrun := run_rewritten fourRows 2 ("selectivity 1\n" ++ "point:7")
  refine ⟨hline, hignored, ?_, by decide +kernel⟩
  exact (hrun.2.2.2 _ hline hignored).2 "selectivity 1\n" "point:7" rfl
    (Or.inr ⟨"selectivity 1", by decide +kernel⟩)

end Replay

end StripePruning
