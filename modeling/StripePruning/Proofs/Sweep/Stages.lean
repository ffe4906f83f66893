import StripePruning.Proofs.Delimited.Cells
import StripePruning.Proofs.Evaluation.Acceptance
import StripePruning.Proofs.Settings.Faults
import StripePruning.Proofs.Workload.Groups
import StripePruning.Sweep.Run

/-!
# How the stages of a run can fail

Between its settings and its reports a run loads tables, arranges their rows, draws lookup
values, evaluates indexes and replays a workload.  `Error.isProcessing` tells the errors
that come up while data goes through these stages, and the `failsWith_` lemmas say of each
stage that it has no others.  The building of indexes and the drawing of a synthetic column
are not among them.
-/

namespace StripePruning

/-! ## Kinds of errors -/

namespace Error

/-- Whether an error comes up while data is processed.  The others are about the settings of
a run, the parameters of an index and the number of filters. -/
def isProcessing : Error → Bool
  | .invalidSorting _ | .unknownIndex _ | .unknownTestCase _ | .invalidConfig _ => false
  | .construction _ _ | .tooManyStripes _ => false
  | _ => true

theorem isConfiguration_of_isProcessing {error : Error} (h : error.isProcessing = true) :
    error.isConfiguration = false := by
  cases error <;> first | rfl | cases h

theorem isConstruction_of_isProcessing {error : Error} (h : error.isProcessing = true) :
    error.isConstruction = false := by
  cases error <;> first | rfl | cases h

end Error

/-! ## Tables -/

theorem Column.failsWith_reorder (c : Column) (rows : Array Nat) :
    FailsWith (c.reorder rows) (·.isProcessing = true) := by
  rw [Column.reorder]
  split
  · exact failsWith_error rfl
  · exact failsWith_ok _

namespace Table

theorem failsWith_ofColumns (name : String) (columns : List Column) :
    FailsWith (ofColumns name columns) (·.isProcessing = true) := by
  rw [ofColumns.eq_def]
  split
  · exact failsWith_ok _
  · split
    · exact failsWith_error rfl
    · exact failsWith_ok _

theorem failsWith_reorder (t : Table) (rows : Array Nat) :
    FailsWith (t.reorder rows) (·.isProcessing = true) :=
  (FailsWith.mapM fun c _ => c.failsWith_reorder rows).bind fun _ _ => failsWith_ok _

theorem failsWith_applySorting (t : Table) (sorting : Sorting) :
    FailsWith (t.applySorting sorting) (·.isProcessing = true) := by
  cases sorting with
  | none => exact failsWith_ok t
  | byCardinality => exact t.failsWith_reorder _
  | random =>
    have hrows : FailsWith t.shuffledRows (·.isProcessing = true) := by
      rw [shuffledRows]
      split
      · exact failsWith_ok _
      · exact failsWith_error rfl
    exact hrows.bind fun rows _ => t.failsWith_reorder rows

end Table

namespace Delimited

/-- A file that does not give a table fails over its data. -/
theorem failsWith_load (files : Files) (path : RawText) (names : List String) :
    FailsWith (load files path names) (·.isProcessing = true) := by
  refine (load_fails files path names).mono fun error herror => ?_
  rcases herror with rfl | rfl | ⟨name, -, rfl⟩ <;> rfl

end Delimited

/-! ## Lookups -/

theorem Batch.failsWith_seeded {α : Type} (seed : UInt64) (draw : Draw Keystream α) :
    FailsWith (seeded seed draw) (·.isProcessing = true) := by
  rw [seeded]
  split
  · exact failsWith_ok _
  · exact failsWith_error rfl

theorem Sweep.failsWith_drawBatches (s : Settings) (c : Column) :
    FailsWith (drawBatches s c) (·.isProcessing = true) := by
  rw [drawBatches]
  split
  · refine FailsWith.mapM fun kind _ => (Batch.failsWith_seeded _ _).bind fun values _ => ?_
    exact failsWith_ok (kind, values)
  · exact failsWith_ok []

theorem Bitmap.failsWith_difference (a b : Bitmap) :
    FailsWith (a.difference b) (·.isProcessing = true) := by
  have hcheck : FailsWith (checkLength a b) (·.isProcessing = true) := by
    rw [checkLength]
    split
    · exact failsWith_ok ()
    · exact failsWith_error rfl
  exact hcheck.bind fun _ _ => failsWith_ok _

namespace Evaluator

theorem failsWith_countLookup (e : Evaluator) (index : Index) (counts : Effectiveness)
    (value : Int64) : FailsWith (e.countLookup index counts value) (·.isProcessing = true) := by
  rw [countLookup]
  refine (Bitmap.failsWith_difference _ _).bind fun missing _ => ?_
  split
  · exact failsWith_error rfl
  · exact (Bitmap.failsWith_difference _ _).bind fun surplus _ => failsWith_ok _

/-- An evaluation that ends early ends over an answer or a drawing. -/
theorem failsWith_evaluate (e : Evaluator) (index : Index) (testCase : TestCase) :
    FailsWith (e.evaluate index testCase) (·.isProcessing = true) := by
  rw [evaluate, evaluateFrom]
  split
  · exact FailsWith.foldlM (e.failsWith_countLookup index) _
  · exact failsWith_error rfl

end Evaluator

namespace Replay

/-- A replay fails only at a trace that cannot be read to its end. -/
theorem failsWith_runLines (index : Index) (n : Nat) (ending : ReadEnd) (r : Replay)
    (lines : List String) :
    FailsWith (runLines index n ending r lines).result (·.isProcessing = true) := by
  induction lines generalizing r with
  | nil =>
    cases ending with
    | complete => exact failsWith_ok _
    | broken => exact failsWith_error rfl
  | cons text rest ih =>
    cases hline : WorkloadLine.parse text with
    | segment label =>
      rw [runLines_segment hline]
      exact ih _
    | ignored =>
      rw [runLines_ignored hline]
      exact ih r
    | query query =>
      obtain ⟨answer, hanswer, -⟩ := query.qualifyingStripes_ok index n
      rw [runLines_query hline hanswer]
      exact ih _

theorem failsWith_runFile (files : Files) (index : Index) (n : Nat) (path : RawText) :
    FailsWith (runFile files index n path).result (·.isProcessing = true) := by
  rw [runFile]
  split
  · exact failsWith_runLines index n _ _ _
  · exact failsWith_runLines index n _ _ _
  · exact failsWith_error rfl

end Replay

/-! ## Measuring an index -/

/-- A timed loop fails as its steps do. -/
theorem Logged.failsWith_forEach {α β : Type} {property : Error → Prop} {timer : Timer}
    {values : List α} {step : Timer → α → Logged β}
    (h : ∀ turn value, value ∈ values → FailsWith (step turn value).result property) :
    FailsWith (forEach timer values step).result property := by
  rw [result_forEach]
  exact FailsWith.mapM fun entry hentry => h _ entry.1 (List.fst_mem_of_mem_zipIdx hentry)

namespace Sweep

namespace Bench

theorem failsWith_evaluateAll (b : Bench) (index : Index) :
    FailsWith (b.evaluateAll index).result (·.isProcessing = true) := by
  rw [evaluateAll]
  split
  · rw [Logged.result_mapM]
    refine FailsWith.mapM fun testCase _ => ?_
    simp only [evaluate, Logged.result_bind]
    exact (Evaluator.failsWith_evaluate _ index testCase).bind fun _ _ => failsWith_ok _
  · exact failsWith_ok []

theorem failsWith_replay (files : Files) (b : Bench) (index : Index) :
    FailsWith (b.replay files index).result (·.isProcessing = true) := by
  rw [replay]
  split
  · exact Replay.failsWith_runFile files index b.stripes _
  · exact failsWith_ok []

/-- Measuring an index that is built fails over data. -/
theorem failsWith_measure (files : Files) (timer : Timer) (b : Bench) (index : Index) :
    FailsWith (b.measure files timer index).result (·.isProcessing = true) := by
  simp only [measure, Logged.result_bind]
  refine (failsWith_ok ()).bind fun _ _ => ?_
  refine (b.failsWith_evaluateAll index).bind fun _ _ => ?_
  refine (Logged.failsWith_forEach fun _ batch _ => ?_).bind fun _ _ => ?_
  · exact failsWith_ok _
  · exact (b.failsWith_replay files index).bind fun _ _ => failsWith_ok _

end Bench

end Sweep

end StripePruning
