import StripePruning.Proofs.Steps
import StripePruning.Settings.Basic

/-!
# Settings with and without faults

What it means that settings are valid, and which errors say that they are not.

* `validate_eq_ok_iff` takes the checks apart, and `checkSweep_eq_ok_iff` says what the
  check of the stripe sizes and indexes asks for.
* `failsWith_validate`: whatever a check finds is an error about the settings.
-/

namespace StripePruning

namespace Error

/-- Whether an error is about the settings of a run. -/
def isConfiguration : Error → Bool
  | .invalidSorting _ | .unknownIndex _ | .unknownTestCase _ | .invalidConfig _ => true
  | _ => false

theorem isConstruction_of_isConfiguration {error : Error} (h : error.isConfiguration = true) :
    error.isConstruction = false := by
  cases error <;> first | rfl | cases h

end Error

theorem Sorting.failsWith_ofName (name : String) :
    FailsWith (ofName name) (·.isConfiguration = true) := by
  rw [ofName]
  refine (failsWith_ok _).ite ((failsWith_ok _).ite ((failsWith_ok _).ite ?_))
  exact failsWith_error rfl

theorem TestCase.failsWith_ofName (name : String) :
    FailsWith (ofName name) (·.isConfiguration = true) := by
  unfold ofName
  split
  · exact failsWith_ok _
  · exact failsWith_ok _
  · exact failsWith_ok _
  · exact failsWith_ok _
  · exact failsWith_ok _
  · exact failsWith_error rfl

namespace Settings

variable {files : Files} {s : Settings} {sorting : Sorting}

/-! ## Single checks -/

/-- The check of the sweep asks for a stripe size, for no stripe size of zero and for an
index. -/
theorem checkSweep_eq_ok_iff :
    s.checkSweep = .ok () ↔ s.stripeSizes ≠ [] ∧ 0 ∉ s.stripeSizes ∧ s.indexes ≠ [] := by
  rw [checkSweep]
  by_cases hsizes : s.stripeSizes = []
  · simp [hsizes]
  · by_cases hzero : 0 ∈ s.stripeSizes
    · simp [hsizes, hzero]
    · by_cases hindexes : s.indexes = []
      · simp [hsizes, hzero, hindexes]
      · simp [hsizes, hzero, hindexes]

theorem failsWith_parsedTestCases (s : Settings) :
    FailsWith s.parsedTestCases (·.isConfiguration = true) :=
  (FailsWith.mapM fun name _ => TestCase.failsWith_ofName name).bind fun _ _ => failsWith_ok _

theorem failsWith_checkInput (files : Files) (role : String) (path : RawText) :
    FailsWith (checkInput files role path) (·.isConfiguration = true) := by
  rw [checkInput]
  split
  · exact failsWith_ok ()
  · exact failsWith_error rfl

theorem failsWith_checkSweep (s : Settings) :
    FailsWith s.checkSweep (·.isConfiguration = true) := by
  rw [checkSweep]
  refine FailsWith.ite (failsWith_error rfl) (FailsWith.ite (failsWith_error rfl) ?_)
  exact FailsWith.ite (failsWith_error rfl) (failsWith_ok ())

theorem failsWith_checkColumns (s : Settings) :
    FailsWith s.checkColumns (·.isConfiguration = true) := by
  rw [checkColumns]
  split
  · exact failsWith_error rfl
  · exact failsWith_ok ()

theorem failsWith_checkBatchSize (s : Settings) :
    FailsWith s.checkBatchSize (·.isConfiguration = true) := by
  rw [checkBatchSize]
  exact FailsWith.ite (failsWith_error rfl) (failsWith_ok ())

/-! ## All checks -/

/-- Whatever keeps settings from being valid is an error about the settings. -/
theorem failsWith_validate (files : Files) (s : Settings) :
    FailsWith (s.validate files) (·.isConfiguration = true) := by
  refine (Sorting.failsWith_ofName _).bind fun sorting _ => ?_
  refine s.failsWith_checkSweep.bind fun _ _ => ?_
  refine s.failsWith_checkColumns.bind fun _ _ => ?_
  refine (FailsWith.forM fun dataset _ => failsWith_checkInput files _ _).bind fun _ _ => ?_
  have hworkload :
      FailsWith (s.workload.forM (checkInput files "workload")) (·.isConfiguration = true) := by
    cases s.workload with
    | none => exact failsWith_ok ()
    | some path => exact failsWith_checkInput files "workload" path
  refine hworkload.bind fun _ _ => ?_
  refine s.failsWith_checkBatchSize.bind fun _ _ => ?_
  exact s.failsWith_parsedTestCases.bind fun _ _ => failsWith_ok sorting

/-- Settings are valid if every check passes. -/
theorem validate_eq_ok_iff :
    s.validate files = .ok sorting ↔
      Sorting.ofName s.sorting = .ok sorting ∧
      (s.stripeSizes ≠ [] ∧ 0 ∉ s.stripeSizes ∧ s.indexes ≠ []) ∧
      s.checkColumns = .ok () ∧
      (s.datasets.forM fun dataset => checkInput files "dataset" dataset.path) = .ok () ∧
      s.workload.forM (checkInput files "workload") = .ok () ∧
      s.checkBatchSize = .ok () ∧
      ∃ testCases, s.parsedTestCases = .ok testCases := by
  simp only [validate, except_bind_eq_ok, ← checkSweep_eq_ok_iff]
  constructor
  · rintro ⟨_, hsorting, _, hsweep, _, hcolumns, _, hdatasets, _, hworkload, _, hbatch,
      testCases, htestCases, hresult⟩
    cases hresult
    exact ⟨hsorting, hsweep, hcolumns, hdatasets, hworkload, hbatch, testCases, htestCases⟩
  · rintro ⟨hsorting, hsweep, hcolumns, hdatasets, hworkload, hbatch, testCases, htestCases⟩
    exact ⟨_, hsorting, _, hsweep, _, hcolumns, _, hdatasets, _, hworkload, _, hbatch,
      testCases, htestCases, rfl⟩

end Settings

end StripePruning
