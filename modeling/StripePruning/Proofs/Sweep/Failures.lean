import StripePruning.Proofs.Index.Construction
import StripePruning.Proofs.Sweep.Stages

/-!
# How a run can fail

A run with valid settings can fail while it processes data.  This module says what else it
can fail with.

* `Sweep.Fault` adds the filters that are too many to store, and `Settings.RefusesColumn`
  the synthetic column that cannot be made; `Settings.failsWith_run` says that there are no
  other errors.
* `Settings.run_eq_configuration_error_iff` says when a run ends with an error about its
  settings.
* `IndexConfig.build_error_cases` says what becomes of an index that is not built: a sweep
  goes on without it or ends.
-/

namespace StripePruning

/-! ## One configuration -/

namespace Sweep

namespace Bench

variable {files : Files} {timer : Timer} {b : Bench} {config : IndexConfig}

theorem result_report?_of_ok {index : Index}
    (h : config.build b.column b.stripeSize = .ok index) :
    (b.report? files timer config).result
      = (b.measure files timer index).result >>= fun r => .ok (some r) := by
  rw [report?, h, Logged.result_bind]
  rfl

theorem result_report?_of_error {error : Error}
    (h : config.build b.column b.stripeSize = .error error) :
    (b.report? files timer config).result
      = if error.isConstruction then .ok none else .error error := by
  rw [report?, h]
  simp only [apply_ite Logged.result]
  rfl

/-- There is no report on a configuration exactly if its parameters do not let the index be
built. -/
theorem report?_eq_none_iff :
    (b.report? files timer config).result = .ok none ↔
      ∃ error, config.build b.column b.stripeSize = .error error ∧
        error.isConstruction = true := by
  cases hbuild : config.build b.column b.stripeSize with
  | ok index =>
    rw [result_report?_of_ok hbuild, except_bind_eq_ok]
    simp
  | error error =>
    rw [result_report?_of_error hbuild]
    cases hconstruction : error.isConstruction <;> simp [hconstruction]

/-- The report on a configuration fails over the number of stripes exactly if the index is not
built for that reason. -/
theorem report?_eq_tooManyStripes_iff {stripes : Nat} :
    (b.report? files timer config).result = .error (.tooManyStripes stripes) ↔
      config.build b.column b.stripeSize = .error (.tooManyStripes stripes) := by
  cases hbuild : config.build b.column b.stripeSize with
  | ok index =>
    rw [result_report?_of_ok hbuild]
    constructor
    · intro h
      rcases except_bind_eq_error.1 h with hmeasure | ⟨_, -, h⟩
      · cases b.failsWith_measure files timer index _ hmeasure
      · cases h
    · intro h
      cases h
  | error error =>
    rw [result_report?_of_error hbuild]
    cases hconstruction : error.isConstruction with
    | true =>
      constructor
      · intro h
        cases h
      · intro h
        obtain rfl := Except.error.inj h
        cases hconstruction
    | false => simp only [Bool.false_eq_true, if_false, Except.error.injEq]

end Bench

/-- What a run over some configurations can fail with once its tables are loaded: errors over
data, and filters for more stripes than can be stored. -/
def Fault (configs : List IndexConfig) (error : Error) : Prop :=
  error.isProcessing = true ∨
    ∃ probability stripes, .perStripeBloom probability ∈ configs ∧
      (0.0 < probability && probability < 1.0) = true ∧
      PerStripeBloom.maxStripes < stripes ∧ error = .tooManyStripes stripes

theorem Bench.failsWith_report? (files : Files) (timer : Timer) (b : Bench)
    {configs : List IndexConfig} {config : IndexConfig} (hconfig : config ∈ configs) :
    FailsWith (b.report? files timer config).result (Fault configs) := by
  cases hbuild : config.build b.column b.stripeSize with
  | ok index =>
    rw [result_report?_of_ok hbuild]
    refine ((b.failsWith_measure files timer index).mono fun _ => Or.inl).bind ?_
    exact fun _ _ => failsWith_ok _
  | error error =>
    rw [result_report?_of_error hbuild]
    rcases IndexConfig.build_eq_error_iff.1 hbuild with
      ⟨-, rfl⟩ | ⟨-, probability, rfl, ⟨-, rfl⟩ | ⟨hrange, hmany, rfl⟩⟩
    · exact failsWith_ok none
    · exact failsWith_ok none
    · exact failsWith_error (Or.inr ⟨probability, _, hconfig, hrange, hmany, rfl⟩)

theorem failsWith_buildTruth (s : Settings) (testCases : List TestCase) (c : Column)
    {stripeSize : Nat} (hsize : 0 < stripeSize) :
    FailsWith (buildTruth s testCases c stripeSize) (·.isProcessing = true) := by
  obtain ⟨e, he, -⟩ := Evaluator.build_ok c hsize s.lookups
  rw [buildTruth, he]
  exact (failsWith_ok none).ite (failsWith_ok (some e))

theorem failsWith_runStripeSize (files : Files) (s : Settings) (testCases : List TestCase)
    (c : Column) (batches : List KindBatch) (timer : Timer) {stripeSize : Nat}
    (hsize : 0 < stripeSize) :
    FailsWith (runStripeSize files s testCases c batches timer stripeSize).result
      (Fault s.indexes) := by
  simp only [runStripeSize, Logged.result_bind]
  refine (failsWith_ok ()).bind fun _ _ => ?_
  have htruth := failsWith_buildTruth s testCases c hsize
  refine (htruth.mono fun _ => Or.inl).bind fun evaluator _ => ?_
  refine (Logged.failsWith_forEach fun turn config hconfig => ?_).bind fun _ _ => failsWith_ok _
  exact Bench.failsWith_report? files turn _ hconfig

theorem failsWith_runColumn (files : Files) (s : Settings) (testCases : List TestCase)
    (timer : Timer) (c : Column) (hsizes : 0 ∉ s.stripeSizes) :
    FailsWith (runColumn files s testCases timer c).result (Fault s.indexes) := by
  simp only [runColumn, Logged.result_bind]
  refine ((failsWith_drawBatches s c).mono fun _ => Or.inl).bind fun batches _ => ?_
  refine (Logged.failsWith_forEach fun turn stripeSize hsize => ?_).bind fun _ _ => failsWith_ok _
  have hpos : 0 < stripeSize := Nat.pos_of_ne_zero fun hzero => hsizes (hzero ▸ hsize)
  exact failsWith_runStripeSize files s testCases c batches turn hpos

end Sweep

/-! ## Synthetic columns -/

namespace Uniform

/-- The errors for which no column of `rows` rows is drawn. -/
def Refuses (rows unique : Nat) (error : Error) : Prop :=
  rows < unique ∧ error = .invalidConfig (.tooManyUniqueValues unique rows) ∨
    unique = 0 ∧ 0 < rows ∧ error = .invalidConfig .noUniqueValues

theorem Refuses.isConfiguration {rows unique : Nat} {error : Error}
    (h : Refuses rows unique error) : error.isConfiguration = true := by
  rcases h with ⟨-, rfl⟩ | ⟨-, -, rfl⟩
  · rfl
  · rfl

theorem table_eq_error_of_refuses {rows unique : Nat} {error : Error}
    (h : Refuses rows unique error) : table rows unique = .error error := by
  rw [table, tableFrom]
  rcases h with ⟨hmany, rfl⟩ | ⟨rfl, hrows, rfl⟩
  · rw [if_pos hmany]
  · rw [if_neg (Nat.not_lt_zero rows), if_pos ⟨rfl, hrows⟩]

theorem failsWith_table (rows unique : Nat) :
    FailsWith (table rows unique) fun error =>
      error.isProcessing = true ∨ Refuses rows unique error := by
  rw [table, tableFrom]
  split
  · rename_i hmany
    exact failsWith_error (Or.inr (Or.inl ⟨hmany, rfl⟩))
  · split
    · rename_i hnone
      exact failsWith_error (Or.inr (Or.inr ⟨hnone.1, hnone.2, rfl⟩))
    · split
      · exact (Table.failsWith_ofColumns _ _).mono fun _ => Or.inl
      · exact failsWith_error (Or.inl rfl)

end Uniform

/-! ## Whole runs -/

namespace Settings

open Sweep

variable {files : Files} {timer : Timer} {s : Settings} {sorting : Sorting} {error : Error}

/-- The errors for which a run does not get its synthetic column.  A run with datasets does
not ask for one. -/
def RefusesColumn (s : Settings) (error : Error) : Prop :=
  s.datasets = [] ∧ Uniform.Refuses s.rows s.uniqueValues error

theorem failsWith_load {source : Source} (hsource : source ∈ Source.ofSettings s) :
    FailsWith (source.load files) fun error =>
      error.isProcessing = true ∨ s.RefusesColumn error := by
  rw [Source.ofSettings] at hsource
  cases hdatasets : s.datasets with
  | nil =>
    obtain rfl : source = .synthetic s.rows s.uniqueValues := by
      simpa [hdatasets] using hsource
    refine (Uniform.failsWith_table s.rows s.uniqueValues).mono fun error herror => ?_
    exact herror.imp_right fun hrefuses => ⟨hdatasets, hrefuses⟩
  | cons first rest =>
    obtain ⟨dataset, rfl⟩ : ∃ dataset, source = .file dataset := by
      simp only [hdatasets, List.isEmpty_cons, Bool.false_eq_true, if_false] at hsource
      obtain ⟨dataset, -, hfile⟩ := List.mem_map.1 hsource
      exact ⟨dataset, hfile.symm⟩
    exact (Delimited.failsWith_load files dataset.path dataset.columns).mono fun _ => Or.inl

theorem failsWith_runSource (hsizes : 0 ∉ s.stripeSizes) (sorting : Sorting)
    (testCases : List TestCase) (timer : Timer) {source : Source}
    (hsource : source ∈ Source.ofSettings s) :
    FailsWith (runSource files s sorting testCases timer source).result fun error =>
      Fault s.indexes error ∨ s.RefusesColumn error := by
  simp only [runSource, Logged.result_bind]
  have hload : FailsWith (source.load files) _ := failsWith_load hsource
  refine (hload.mono fun _ => Or.imp_left Or.inl).bind fun table _ => ?_
  have hsorting := table.failsWith_applySorting sorting
  refine (hsorting.mono fun _ h => Or.inl (Or.inl h)).bind fun sorted _ => ?_
  refine (Logged.failsWith_forEach fun turn c _ => ?_).bind fun _ _ => failsWith_ok _
  exact (failsWith_runColumn files s testCases turn c hsizes).mono fun _ => Or.inl

/-- A run with valid settings can fail only over its data, over too many filters and over its
synthetic column. -/
theorem failsWith_run (hvalid : s.validate files = .ok sorting) :
    FailsWith (s.run files timer).result fun error =>
      Fault s.indexes error ∨ s.RefusesColumn error := by
  obtain ⟨-, ⟨-, hsizes, -⟩, -, -, -, -, testCases, htestCases⟩ := validate_eq_ok_iff.1 hvalid
  rw [run, hvalid, htestCases, Logged.liftM_ok_bind, Logged.liftM_ok_bind]
  simp only [Logged.result_bind]
  refine (Logged.failsWith_forEach fun turn source hsource => ?_).bind fun _ _ => failsWith_ok _
  exact failsWith_runSource hsizes sorting testCases turn hsource

/-- A run with faulty settings ends with the fault before it writes a line. -/
theorem run_of_validate_eq_error (h : s.validate files = .error error) :
    s.run files timer = Logged.ofResult (.error error) := by
  rw [run, h]
  exact Logged.liftM_error_bind error _

/-- A run that does not get its synthetic column ends with that before it writes a line. -/
theorem run_of_refusesColumn (hvalid : s.validate files = .ok sorting)
    (h : s.RefusesColumn error) : s.run files timer = Logged.ofResult (.error error) := by
  obtain ⟨-, -, -, -, -, -, testCases, htestCases⟩ := validate_eq_ok_iff.1 hvalid
  obtain ⟨hdatasets, hrefuses⟩ := h
  have hsources : Source.ofSettings s = [.synthetic s.rows s.uniqueValues] := by
    rw [Source.ofSettings, hdatasets]
    rfl
  have hsource (timer : Timer) : runSource files s sorting testCases timer
      (.synthetic s.rows s.uniqueValues) = Logged.ofResult (.error error) := by
    rw [runSource, Source.load, Uniform.table_eq_error_of_refuses hrefuses]
    exact Logged.liftM_error_bind error _
  have hloop : Logged.forEach timer (Source.ofSettings s) (runSource files s sorting testCases)
      = Logged.ofResult (.error error) := by
    rw [hsources, Logged.forEach]
    show (do
      let first ← runSource files s sorting testCases (timer.turn 0)
        (.synthetic s.rows s.uniqueValues)
      _) = _
    rw [hsource]
    rfl
  rw [run, hvalid, htestCases, Logged.liftM_ok_bind, Logged.liftM_ok_bind, hloop]
  rfl

/-- A run ends with an error about its settings in two cases: if the settings are not valid,
and if they ask for a synthetic column with more different values than rows, or with rows but
no value to fill them.  The second case shows only when the column is about to be made.  In
both the run ends before it writes a line. -/
theorem run_eq_configuration_error_iff :
    ((s.run files timer).result = .error error ∧ error.isConfiguration = true ↔
      s.validate files = .error error ∨
        (∃ sorting, s.validate files = .ok sorting) ∧ s.datasets = [] ∧
          (s.rows < s.uniqueValues ∧
              error = .invalidConfig (.tooManyUniqueValues s.uniqueValues s.rows) ∨
            s.uniqueValues = 0 ∧ 0 < s.rows ∧ error = .invalidConfig .noUniqueValues)) ∧
      ((s.run files timer).result = .error error → error.isConfiguration = true →
        (s.run files timer).lines = []) := by
  have hcases (hrun : (s.run files timer).result = .error error)
      (hconfiguration : error.isConfiguration = true) :
      s.validate files = .error error ∨
        ∃ sorting, s.validate files = .ok sorting ∧ s.RefusesColumn error := by
    cases hvalidate : s.validate files with
    | error fault =>
      rw [run_of_validate_eq_error hvalidate] at hrun
      obtain rfl := Except.error.inj hrun
      exact Or.inl rfl
    | ok sorting =>
      rcases failsWith_run hvalidate error hrun with (hprocessing | ⟨_, _, -, -, -, rfl⟩) | h
      · rw [Error.isConfiguration_of_isProcessing hprocessing] at hconfiguration
        cases hconfiguration
      · cases hconfiguration
      · exact Or.inr ⟨sorting, rfl, h⟩
  refine ⟨⟨?_, ?_⟩, ?_⟩
  · rintro ⟨hrun, hconfiguration⟩
    rcases hcases hrun hconfiguration with hfault | ⟨sorting, hvalid, hrefuses⟩
    · exact Or.inl hfault
    · exact Or.inr ⟨⟨sorting, hvalid⟩, hrefuses⟩
  · rintro (hfault | ⟨⟨sorting, hvalid⟩, hrefuses⟩)
    · rw [run_of_validate_eq_error hfault]
      exact ⟨rfl, failsWith_validate files s error hfault⟩
    · rw [run_of_refusesColumn hvalid hrefuses]
      exact ⟨rfl, Uniform.Refuses.isConfiguration hrefuses.2⟩
  · intro hrun hconfiguration
    rcases hcases hrun hconfiguration with hfault | ⟨sorting, hvalid, hrefuses⟩
    · rw [run_of_validate_eq_error hfault]
      rfl
    · rw [run_of_refusesColumn hvalid hrefuses]
      rfl

/-- Ten rows for eleven different values: the settings are valid, and the run ends with an
error about them. -/
theorem validate_ok_of_eleven_values_in_ten_rows :
    validate (.ofList []) { rows := 10, uniqueValues := 11 } = .ok .none ∧
      (∀ timer, (run (.ofList []) timer { rows := 10, uniqueValues := 11 }).result
        = .error (.invalidConfig (.tooManyUniqueValues 11 10))) ∧
      (Error.invalidConfig (.tooManyUniqueValues 11 10)).isConfiguration = true := by
  have hvalid : validate (.ofList []) { rows := 10, uniqueValues := 11 } = .ok .none := by rfl
  have hrefuses : RefusesColumn { rows := 10, uniqueValues := 11 }
      (.invalidConfig (.tooManyUniqueValues 11 10)) :=
    ⟨rfl, Or.inl ⟨by decide, rfl⟩⟩
  exact ⟨hvalid, fun _ => congrArg Logged.result (run_of_refusesColumn hvalid hrefuses), rfl⟩

/-- No run ends with an error about the parameters of an index.  One that ends over the number
of stripes compares filters. -/
theorem run_eq_error (h : (s.run files timer).result = .error error) :
    error.isConstruction = false ∧
      ∀ stripes, error = .tooManyStripes stripes →
        PerStripeBloom.maxStripes < stripes ∧
          ∃ probability, .perStripeBloom probability ∈ s.indexes ∧
            (0.0 < probability && probability < 1.0) = true := by
  cases hvalidate : s.validate files with
  | error fault =>
    rw [run_of_validate_eq_error hvalidate] at h
    obtain rfl := Except.error.inj h
    have hconfiguration := failsWith_validate files s _ hvalidate
    refine ⟨Error.isConstruction_of_isConfiguration hconfiguration, ?_⟩
    rintro stripes rfl
    cases hconfiguration
  | ok sorting =>
    rcases failsWith_run hvalidate error h with
      (hprocessing | ⟨probability, stripes, hconfig, hrange, hmany, rfl⟩) | ⟨-, hrefuses⟩
    · refine ⟨Error.isConstruction_of_isProcessing hprocessing, ?_⟩
      rintro stripes rfl
      cases hprocessing
    · refine ⟨rfl, fun other hother => ?_⟩
      obtain rfl := Error.tooManyStripes.inj hother
      exact ⟨hmany, probability, hconfig, hrange⟩
    · rcases hrefuses with ⟨-, rfl⟩ | ⟨-, -, rfl⟩
      · exact ⟨rfl, by rintro stripes ⟨⟩⟩
      · exact ⟨rfl, by rintro stripes ⟨⟩⟩

end Settings

namespace IndexConfig

open Sweep

/-- An index is not built for stripes of no rows and, if it is made of filters, for a
probability that does not lie between zero and one; both are errors about its parameters.
There is one more case, filters for more stripes than can be stored, and its error is not
about the parameters.

So a sweep goes on without an index exactly in the first cases.  No run ends with an error
about the parameters of an index, but one that compares filters over many stripes can end
because of their number. -/
theorem build_error_cases (config : IndexConfig) (c : Column) (stripeSize : Nat) :
    ((∃ error, config.build c stripeSize = .error error ∧ error.isConstruction = true) ↔
        stripeSize = 0 ∨ ∃ probability, config = .perStripeBloom probability ∧
          (0.0 < probability && probability < 1.0) = false) ∧
      (∀ error, config.build c stripeSize = .error error ∧ error.isConstruction = false ↔
        0 < stripeSize ∧
          (∃ probability, config = .perStripeBloom probability ∧
            (0.0 < probability && probability < 1.0) = true) ∧
          PerStripeBloom.maxStripes < c.numStripes stripeSize ∧
          error = .tooManyStripes (c.numStripes stripeSize)) ∧
      (∀ files timer (b : Bench), b.column = c → b.stripeSize = stripeSize →
        ((b.report? files timer config).result = .ok none ↔
          ∃ error, config.build c stripeSize = .error error ∧ error.isConstruction = true) ∧
        ∀ stripes, (b.report? files timer config).result = .error (.tooManyStripes stripes) ↔
          config.build c stripeSize = .error (.tooManyStripes stripes)) ∧
      ∀ files timer (s : Settings) error, (s.run files timer).result = .error error →
        error.isConstruction = false ∧
          ∀ stripes, error = .tooManyStripes stripes →
            PerStripeBloom.maxStripes < stripes ∧
              ∃ probability, .perStripeBloom probability ∈ s.indexes ∧
                (0.0 < probability && probability < 1.0) = true := by
  refine ⟨exists_construction_error_iff, fun error => build_eq_other_error_iff, ?_,
    fun files timer s error => Settings.run_eq_error⟩
  rintro files timer b rfl rfl
  exact ⟨Bench.report?_eq_none_iff, fun stripes => Bench.report?_eq_tooManyStripes_iff⟩

/-- One stripe more than can be stored, with the usual probability: the error is not about
the parameters, and the report on the configuration fails with it. -/
theorem build_fails_for_one_stripe_too_many :
    ∃ error, build (.perStripeBloom standardProbability)
        (.ofValues "c" (Array.replicate 32769 0)) 1 = .error error ∧
      error.isConstruction = false ∧
      (0.0 < standardProbability && standardProbability < 1.0) = true ∧
      ∀ files timer, (Bench.report? files
        { column := .ofValues "c" (Array.replicate 32769 0), stripeSize := 1, evaluator := none,
          testCases := [], batches := [], least := {}, workload := none }
        timer (.perStripeBloom standardProbability)).result = .error error := by
  have hrange : (0.0 < standardProbability && standardProbability < 1.0) = true := by decide
  have hstripes (rows : Nat) :
      Column.numStripes (.ofValues "c" (Array.replicate rows 0)) 1 = rows := by
    simp [Column.numStripes, Column.numRows, Column.ofValues]
  have hmany : PerStripeBloom.maxStripes < 32769 := by decide
  obtain ⟨hbuild, hconstruction⟩ := build_eq_other_error_iff.2
    ⟨Nat.one_pos, ⟨standardProbability, rfl, hrange⟩, by rw [hstripes]; exact hmany, rfl⟩
  refine ⟨_, hbuild, hconstruction, hrange, fun files timer => ?_⟩
  exact Bench.report?_eq_tooManyStripes_iff.2 hbuild

end IndexConfig

end StripePruning
