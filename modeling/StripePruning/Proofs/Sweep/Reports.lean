import Mathlib.Data.List.Basic
import StripePruning.Proofs.Lookup.Series
import StripePruning.Proofs.Sweep.Failures

/-!
# The reports of a run

A run shares what it draws and computes between the indexes that it compares, and it goes on
without an index that cannot be built.  This module says what its reports are nevertheless:
one for each combination of a column, a stripe size and a configuration whose index is built,
each computed as if the combination were alone.

* `Report.IsAbout` says what a report is: every field of it is given by the index, the column,
  the settings that are not compared and, as far as the series count lookups, the stopwatches.
* `Sweep.cell` is what a run computes for one combination, as a function of the stopwatches.
  `Sweep.cell_cases` says that it is a report on the index, or nothing if the parameters do not
  let the index be built.
* The `eq_ok_iff` lemmas say of each loop of a run, from the inside out, that it succeeds
  exactly if all of its cells do, and that its reports are those of the cells in order.
* `Settings.run_eq_ok_iff` says so of the whole run.

Compressed sizes and the times of building and searching are no part of a report.
-/

namespace StripePruning

/-! ## One combination -/

/-- A report on an index over the stripes of a column, from a run with some settings, inputs and
stopwatches. -/
structure Report.IsAbout (r : Report) (files : Files) (s : Settings) (testCases : List TestCase)
    (timer : Timer) (c : Column) (stripeSize : Nat) (index : Index) : Prop where
  column_eq : r.column = c.name
  stripeSize_eq : r.stripeSize = stripeSize
  stripes_eq : r.stripes = c.numStripes stripeSize
  index_eq : r.index = StripeIndex.name index
  byteSize_eq : r.byteSize = StripeIndex.byteSize index
  bitmapStats_eq : r.bitmapStats = StripeIndex.bitmapStats? index
  /-- The counts of all test cases against the truth about the column. -/
  effectiveness_eq : (do
    let evaluator ← Evaluator.build c stripeSize s.lookups
    testCases.mapM (evaluator.evaluate index)) = .ok r.effectiveness
  /-- A series over each batch, which counts the batch once for each pass. -/
  lookups_eq : ∃ batches, Sweep.drawBatches s c = .ok batches ∧
    r.lookups.length = batches.length ∧
    ∀ i m kind values, r.lookups[i]? = some m → batches[i]? = some (kind, values) →
      m.name = kind.seriesName c.name stripeSize (StripeIndex.name index) ∧
        ∃ last, (timer.turn i).watch.IsLastPass s.minBenchTime last ∧
          m.lookups = (last + 1) * values.size
  segments_eq : match s.workload with
    | none => r.segments = []
    | some path =>
      (Replay.runFile files index (c.numStripes stripeSize) path).result = .ok r.segments

namespace Sweep

namespace Bench

variable {files : Files} {timer : Timer} {b : Bench} {index : Index}

/-- The measurements of the series over an index. -/
def measurements (b : Bench) (index : Index) (timer : Timer) : List LookupMeasurement :=
  b.batches.zipIdx.map fun (batch, i) =>
    .measure (timer.turn i).watch b.least
      (batch.1.seriesName b.column.name b.stripeSize (StripeIndex.name index)) batch.2

/-- The report on a built index, as a function of the stopwatches. -/
def found (files : Files) (b : Bench) (index : Index) : Except Error (Timer → Report) := do
  let effectiveness ← (b.evaluateAll index).result
  let segments ← (b.replay files index).result
  return fun timer =>
    { column := b.column.name
      stripeSize := b.stripeSize
      stripes := b.stripes
      index := StripeIndex.name index
      byteSize := StripeIndex.byteSize index
      bitmapStats := StripeIndex.bitmapStats? index
      effectiveness
      lookups := b.measurements index timer
      segments }

theorem result_forEach_series (b : Bench) (index : Index) (timer : Timer) :
    (Logged.forEach timer b.batches (b.series index)).result = .ok (b.measurements index timer) := by
  rw [Logged.result_forEach]
  exact mapM_ok fun entry _ => rfl

theorem result_measure : (b.measure files timer index).result
    = (b.found files index).map fun report => report timer := by
  simp only [measure, found, Logged.result_bind, result_forEach_series]
  cases (b.evaluateAll index).result with
  | error error => rfl
  | ok effectiveness =>
    show (do
      let segments ← (b.replay files index).result
      _) = _
    cases (b.replay files index).result with
    | error error => rfl
    | ok segments => rfl

theorem found_eq_ok {report : Timer → Report} (h : b.found files index = .ok report) :
    ∃ effectiveness segments, (b.evaluateAll index).result = .ok effectiveness ∧
      (b.replay files index).result = .ok segments ∧
      ∀ timer, report timer =
        { column := b.column.name
          stripeSize := b.stripeSize
          stripes := b.stripes
          index := StripeIndex.name index
          byteSize := StripeIndex.byteSize index
          bitmapStats := StripeIndex.bitmapStats? index
          effectiveness
          lookups := b.measurements index timer
          segments } := by
  obtain ⟨effectiveness, heffectiveness, h⟩ := except_bind_eq_ok.1 h
  obtain ⟨segments, hsegments, h⟩ := except_bind_eq_ok.1 h
  obtain rfl := Except.ok.inj h
  exact ⟨effectiveness, segments, heffectiveness, hsegments, fun _ => rfl⟩

/-- Test cases are evaluated against the truth, which is there whenever they are. -/
theorem result_evaluateAll {s : Settings} {testCases : List TestCase} {c : Column}
    {stripeSize : Nat} {evaluator : Option Evaluator} {batches : List KindBatch}
    (hsize : 0 < stripeSize) (htruth : buildTruth s testCases c stripeSize = .ok evaluator)
    (index : Index) :
    ((ofSettings s testCases c stripeSize evaluator batches).evaluateAll index).result = (do
      let evaluator ← Evaluator.build c stripeSize s.lookups
      testCases.mapM (evaluator.evaluate index)) := by
  obtain ⟨e, he, -⟩ := Evaluator.build_ok c hsize s.lookups
  rw [buildTruth, he] at htruth
  rw [he]
  cases testCases with
  | nil =>
    obtain rfl := Except.ok.inj htruth
    rfl
  | cons first rest =>
    obtain rfl := Except.ok.inj htruth
    show ((first :: rest).mapM (evaluate index e)).result = (first :: rest).mapM (e.evaluate index)
    rw [Logged.result_mapM]
    congr 1
    funext testCase
    simp only [evaluate, Logged.result_bind]
    exact bind_pure _

end Bench

/-- What a run computes for one combination: the report, if the index can be built. -/
def cell (files : Files) (s : Settings) (testCases : List TestCase) (c : Column)
    (stripeSize : Nat) (config : IndexConfig) : Except Error (Option (Timer → Report)) := do
  let batches ← drawBatches s c
  let evaluator ← buildTruth s testCases c stripeSize
  match config.build c stripeSize with
  | .ok index =>
    ((Bench.ofSettings s testCases c stripeSize evaluator batches).found files index).map some
  | .error error => if error.isConstruction then .ok none else .error error

/-- The report on one combination, if there is one. -/
def reportOn (files : Files) (s : Settings) (testCases : List TestCase) (c : Column)
    (stripeSize : Nat) (config : IndexConfig) : Option (Timer → Report) :=
  match cell files s testCases c stripeSize config with
  | .ok report => report
  | .error _ => none

variable {files : Files} {timer : Timer} {s : Settings} {testCases : List TestCase} {c : Column}
  {stripeSize : Nat} {config : IndexConfig} {reports : List Report}

theorem cell_eq {batches : List KindBatch} {evaluator : Option Evaluator}
    (hbatches : drawBatches s c = .ok batches)
    (htruth : buildTruth s testCases c stripeSize = .ok evaluator) :
    cell files s testCases c stripeSize config = match config.build c stripeSize with
      | .ok index =>
        ((Bench.ofSettings s testCases c stripeSize evaluator batches).found files index).map some
      | .error error => if error.isConstruction then .ok none else .error error := by
  rw [cell, hbatches, htruth]
  rfl

theorem result_report? {batches : List KindBatch} {evaluator : Option Evaluator}
    (hbatches : drawBatches s c = .ok batches)
    (htruth : buildTruth s testCases c stripeSize = .ok evaluator) (timer : Timer) :
    ((Bench.ofSettings s testCases c stripeSize evaluator batches).report? files timer
        config).result
      = (cell files s testCases c stripeSize config).map (Option.map fun report => report timer) := by
  rw [cell_eq hbatches htruth]
  cases hbuild : config.build c stripeSize with
  | ok index =>
    rw [Bench.result_report?_of_ok hbuild, Bench.result_measure]
    dsimp only
    cases (Bench.ofSettings s testCases c stripeSize evaluator batches).found files index with
    | error error => rfl
    | ok report => rfl
  | error error =>
    rw [Bench.result_report?_of_error hbuild]
    dsimp only
    cases error.isConstruction with
    | true => rfl
    | false => rfl

/-- A cell succeeds in two cases: the index is built and reported on, or its parameters do
not let it be built and there is no report. -/
theorem cell_cases (hsize : 0 < stripeSize) {report : Option (Timer → Report)}
    (h : cell files s testCases c stripeSize config = .ok report) :
    (∃ index r, config.build c stripeSize = .ok index ∧ report = some r ∧
        ∀ timer, (r timer).IsAbout files s testCases timer c stripeSize index) ∨
      ∃ error, config.build c stripeSize = .error error ∧ error.isConstruction = true ∧
        report = none := by
  obtain ⟨batches, hbatches, h⟩ := except_bind_eq_ok.1 h
  obtain ⟨evaluator, htruth, h⟩ := except_bind_eq_ok.1 h
  cases hbuild : config.build c stripeSize with
  | ok index =>
    rw [hbuild] at h
    obtain ⟨r, hfound, rfl⟩ := except_map_eq_ok.1 h
    obtain ⟨effectiveness, segments, heffectiveness, hsegments, hr⟩ := Bench.found_eq_ok hfound
    refine Or.inl ⟨index, r, rfl, rfl, fun timer => ?_⟩
    rw [hr timer]
    refine ⟨rfl, rfl, rfl, rfl, rfl, rfl, ?_, ⟨batches, hbatches, ?_, ?_⟩, ?_⟩
    · rw [← Bench.result_evaluateAll hsize htruth index]
      exact heffectiveness
    · simp [Bench.measurements, Bench.ofSettings]
    · intro i m kind values hm hbatch
      obtain rfl : m = .measure (timer.turn i).watch s.minBenchTime
          (kind.seriesName c.name stripeSize (StripeIndex.name index)) values := by
        simp only [Bench.measurements, Bench.ofSettings, List.getElem?_map,
          List.getElem?_zipIdx, hbatch] at hm
        simpa using hm.symm
      obtain ⟨last, hlast⟩ := (timer.turn i).watch.exists_isLastPass s.minBenchTime
      exact ⟨LookupMeasurement.name_measure _ _ _ _, last, hlast,
        LookupMeasurement.lookups_measure hlast _ values⟩
    · cases hworkload : s.workload with
      | none =>
        rw [Bench.replay, Bench.ofSettings, hworkload] at hsegments
        exact (Except.ok.inj hsegments).symm
      | some path =>
        rw [Bench.replay, Bench.ofSettings, hworkload] at hsegments
        exact hsegments
  | error error =>
    rw [hbuild] at h
    cases hconstruction : error.isConstruction with
    | true =>
      simp only [hconstruction] at h
      exact Or.inr ⟨error, rfl, hconstruction, (Except.ok.inj h).symm⟩
    | false =>
      simp only [hconstruction] at h
      cases h

theorem cell_eq_reportOn
    (h : ∃ report, cell files s testCases c stripeSize config = .ok report) :
    cell files s testCases c stripeSize config
      = .ok (reportOn files s testCases c stripeSize config) := by
  obtain ⟨report, hreport⟩ := h
  rw [reportOn, hreport]

/-! ## The loops of a run -/

/-- All combinations of a column with the stripe sizes and configurations succeed. -/
def Succeeds (files : Files) (s : Settings) (testCases : List TestCase) (c : Column) : Prop :=
  ∀ stripeSize, stripeSize ∈ s.stripeSizes → ∀ config, config ∈ s.indexes →
    ∃ report, cell files s testCases c stripeSize config = .ok report

/-- The reports on a column and a stripe size. -/
def reportsOnSize (files : Files) (s : Settings) (testCases : List TestCase) (timer : Timer)
    (c : Column) (stripeSize : Nat) : List Report :=
  s.indexes.zipIdx.filterMap fun entry =>
    (reportOn files s testCases c stripeSize entry.1).map fun report => report (timer.turn entry.2)

/-- The reports on a column. -/
def reportsOn (files : Files) (s : Settings) (testCases : List TestCase) (timer : Timer)
    (c : Column) : List Report :=
  s.stripeSizes.zipIdx.flatMap fun entry =>
    reportsOnSize files s testCases (timer.turn entry.2) c entry.1

/-- The reports on the columns of a table. -/
def reportsOnTable (files : Files) (s : Settings) (testCases : List TestCase) (timer : Timer)
    (table : Table) : List Report :=
  table.columns.zipIdx.flatMap fun entry =>
    reportsOn files s testCases (timer.turn entry.2) entry.1

theorem forall_mem_zipIdx {α : Type} (property : α → Prop) {values : List α} :
    (∀ entry, entry ∈ values.zipIdx → property entry.1) ↔
      ∀ value, value ∈ values → property value := by
  constructor
  · intro h value hvalue
    obtain ⟨i, hi⟩ := List.mem_iff_getElem?.1 hvalue
    exact h (value, i) (List.mk_mem_zipIdx_iff_getElem?.2 hi)
  · intro h entry hentry
    exact h entry.1 (List.fst_mem_of_mem_zipIdx hentry)

/-- A timed loop succeeds exactly if all of its steps do, and what is made of its results is
made of those of the steps. -/
theorem forEach_combine_eq_ok_iff {α β γ : Type} {step : Timer → α → Logged β}
    (combine : List β → γ) (succeeds : α → Prop) (result : Timer → α → β) {values : List α}
    {combined : γ}
    (h : ∀ turn value, value ∈ values → ∀ out,
      (step turn value).result = .ok out ↔ succeeds value ∧ out = result turn value) :
    ((Logged.forEach timer values step).result >>= fun results => .ok (combine results))
        = .ok combined ↔
      (∀ value, value ∈ values → succeeds value) ∧
        combined = combine (values.zipIdx.map fun entry => result (timer.turn entry.2) entry.1) := by
  rw [Logged.result_forEach, mapM_combine_eq_ok_iff combine fun entry hentry out =>
    h (timer.turn entry.2) entry.1 (List.fst_mem_of_mem_zipIdx hentry) out]
  exact and_congr_left fun _ => forall_mem_zipIdx succeeds

/-- The loop over the configurations.  The truth about the column is computed before it, so a
failure there counts as one of the first configuration. -/
theorem runStripeSize_eq_ok_iff (hindexes : s.indexes ≠ []) {batches : List KindBatch}
    (hbatches : drawBatches s c = .ok batches) :
    (runStripeSize files s testCases c batches timer stripeSize).result = .ok reports ↔
      (∀ config, config ∈ s.indexes →
        ∃ report, cell files s testCases c stripeSize config = .ok report) ∧
        reports = reportsOnSize files s testCases timer c stripeSize := by
  simp only [runStripeSize, Logged.result_bind, Logged.result_monadLift, Logged.result_pure]
  cases htruth : buildTruth s testCases c stripeSize with
  | error error =>
    obtain ⟨config, hconfig⟩ := List.exists_mem_of_ne_nil _ hindexes
    have hcell : cell files s testCases c stripeSize config = .error error := by
      rw [cell, hbatches, htruth]
      rfl
    constructor
    · intro h
      cases h
    · rintro ⟨hcells, -⟩
      obtain ⟨report, hreport⟩ := hcells config hconfig
      rw [hcell] at hreport
      cases hreport
  | ok evaluator =>
    have hreduce : (s.indexes.zipIdx.map fun entry =>
          (reportOn files s testCases c stripeSize entry.1).map
            fun report => report (timer.turn entry.2)).reduceOption
        = reportsOnSize files s testCases timer c stripeSize :=
      List.filterMap_map
    rw [← hreduce]
    show ((Logged.forEach timer s.indexes (Bench.report? files
      (Bench.ofSettings s testCases c stripeSize evaluator batches))).result >>= fun reports =>
        .ok reports.reduceOption) = .ok reports ↔ _
    refine forEach_combine_eq_ok_iff List.reduceOption
      (fun config => ∃ report, cell files s testCases c stripeSize config = .ok report)
      (fun turn config => (reportOn files s testCases c stripeSize config).map
        fun report => report turn) fun turn config _ report => ?_
    rw [result_report? hbatches htruth, except_map_eq_ok]
    constructor
    · rintro ⟨found, hcell, rfl⟩
      rw [reportOn, hcell]
      exact ⟨⟨found, rfl⟩, rfl⟩
    · rintro ⟨hcell, rfl⟩
      exact ⟨_, cell_eq_reportOn hcell, rfl⟩

/-- The loop over the stripe sizes.  The batches are drawn before it, so a failure there counts
as one of the first stripe size and configuration. -/
theorem runColumn_eq_ok_iff (hsizes : s.stripeSizes ≠ []) (hindexes : s.indexes ≠ []) :
    (runColumn files s testCases timer c).result = .ok reports ↔
      Succeeds files s testCases c ∧ reports = reportsOn files s testCases timer c := by
  simp only [runColumn, Logged.result_bind, Logged.result_monadLift, Logged.result_pure]
  cases hbatches : drawBatches s c with
  | error error =>
    obtain ⟨stripeSize, hsize⟩ := List.exists_mem_of_ne_nil _ hsizes
    obtain ⟨config, hconfig⟩ := List.exists_mem_of_ne_nil _ hindexes
    have hcell : cell files s testCases c stripeSize config = .error error := by
      rw [cell, hbatches]
      rfl
    constructor
    · intro h
      cases h
    · rintro ⟨hcells, -⟩
      obtain ⟨report, hreport⟩ := hcells stripeSize hsize config hconfig
      rw [hcell] at hreport
      cases hreport
  | ok batches =>
    rw [reportsOn, List.flatMap_def]
    show ((Logged.forEach timer s.stripeSizes (runStripeSize files s testCases c
      batches)).result >>= fun groups => .ok groups.flatten) = .ok reports ↔ _
    exact forEach_combine_eq_ok_iff List.flatten
      (fun stripeSize => ∀ config, config ∈ s.indexes →
        ∃ report, cell files s testCases c stripeSize config = .ok report)
      (fun turn => reportsOnSize files s testCases turn c)
      fun turn stripeSize _ found => runStripeSize_eq_ok_iff hindexes hbatches

/-- The table of a source with its rows arranged. -/
def Source.table (files : Files) (sorting : Sorting) (source : Source) : Except Error Table := do
  (← source.load files).applySorting sorting

/-- The loop over the columns of a table that is loaded. -/
def runTable (files : Files) (s : Settings) (testCases : List TestCase) (timer : Timer)
    (table : Table) : Except Error (List Report) := do
  return (← (Logged.forEach timer table.columns (runColumn files s testCases)).result).flatten

theorem result_runSource (sorting : Sorting) (source : Source) :
    (runSource files s sorting testCases timer source).result
      = source.table files sorting >>= runTable files s testCases timer := by
  rw [Source.table, bind_assoc]
  simp only [runSource, Logged.result_bind, Logged.result_monadLift, Logged.result_pure]
  rfl

theorem runTable_eq_ok_iff (hsizes : s.stripeSizes ≠ []) (hindexes : s.indexes ≠ [])
    {table : Table} :
    runTable files s testCases timer table = .ok reports ↔
      (∀ c, c ∈ table.columns → Succeeds files s testCases c) ∧
        reports = reportsOnTable files s testCases timer table := by
  rw [reportsOnTable, List.flatMap_def]
  exact forEach_combine_eq_ok_iff List.flatten (Succeeds files s testCases)
    (fun turn => reportsOn files s testCases turn)
    fun turn c _ found => runColumn_eq_ok_iff hsizes hindexes

/-- The loop over tables that are loaded. -/
theorem mapM_runTable_eq_ok_iff (hsizes : s.stripeSizes ≠ []) (hindexes : s.indexes ≠ [])
    {tables : List Table} :
    ((tables.zipIdx.mapM fun entry => runTable files s testCases (timer.turn entry.2) entry.1) >>=
        fun groups => .ok groups.flatten) = .ok reports ↔
      (∀ table, table ∈ tables → ∀ c, c ∈ table.columns → Succeeds files s testCases c) ∧
        reports = tables.zipIdx.flatMap fun entry =>
          reportsOnTable files s testCases (timer.turn entry.2) entry.1 := by
  rw [List.flatMap_def, mapM_combine_eq_ok_iff List.flatten fun entry _ found =>
    runTable_eq_ok_iff hsizes hindexes]
  exact and_congr_left fun _ => forall_mem_zipIdx
    fun table : Table => ∀ c, c ∈ table.columns → Succeeds files s testCases c

end Sweep

namespace Settings

open Sweep

variable {files : Files} {timer : Timer} {s : Settings} {reports : List Report}

/-- A run succeeds exactly if its settings are valid, it gets its tables, and all of its
combinations succeed. -/
theorem run_eq_ok_iff :
    (s.run files timer).result = .ok reports ↔
      ∃ sorting testCases tables, s.validate files = .ok sorting ∧
        s.parsedTestCases = .ok testCases ∧
        (Source.ofSettings s).mapM (Source.table files sorting) = .ok tables ∧
        (∀ table, table ∈ tables → ∀ c, c ∈ table.columns → Succeeds files s testCases c) ∧
        reports = tables.zipIdx.flatMap fun entry =>
          reportsOnTable files s testCases (timer.turn entry.2) entry.1 := by
  have hrun : (s.run files timer).result
      = s.validate files >>= fun sorting => s.parsedTestCases >>= fun testCases =>
          (Source.ofSettings s).zipIdx.mapM (fun entry =>
            entry.1.table files sorting >>= runTable files s testCases (timer.turn entry.2)) >>=
              fun groups => .ok groups.flatten := by
    simp only [run, Logged.result_bind, Logged.result_forEach, Logged.result_monadLift,
      Logged.result_pure, result_runSource]
  have hsplit (sorting : Sorting) (testCases : List TestCase) {groups : List (List Report)} :
      (Source.ofSettings s).zipIdx.mapM (fun entry =>
        entry.1.table files sorting >>= runTable files s testCases (timer.turn entry.2))
          = .ok groups ↔ _ :=
    mapM_zipIdx_bind_eq_ok_iff (Source.table files sorting) fun i =>
      runTable files s testCases (timer.turn i)
  rw [hrun]
  constructor
  · intro h
    obtain ⟨sorting, hvalid, h⟩ := except_bind_eq_ok.1 h
    obtain ⟨testCases, htestCases, h⟩ := except_bind_eq_ok.1 h
    obtain ⟨groups, hgroups, hresult⟩ := except_bind_eq_ok.1 h
    obtain ⟨tables, htables, hmeasured⟩ := (hsplit sorting testCases).1 hgroups
    obtain ⟨-, ⟨hsizes, -, hindexes⟩, -⟩ := validate_eq_ok_iff.1 hvalid
    have hloop := (mapM_runTable_eq_ok_iff hsizes hindexes).1
      (except_bind_eq_ok.2 ⟨groups, hmeasured, hresult⟩)
    exact ⟨sorting, testCases, tables, hvalid, htestCases, htables, hloop⟩
  · rintro ⟨sorting, testCases, tables, hvalid, htestCases, htables, hloop⟩
    obtain ⟨-, ⟨hsizes, -, hindexes⟩, -⟩ := validate_eq_ok_iff.1 hvalid
    obtain ⟨groups, hmeasured, hresult⟩ := except_bind_eq_ok.1
      ((mapM_runTable_eq_ok_iff hsizes hindexes).2 hloop)
    have hgroups := (hsplit sorting testCases).2 ⟨tables, htables, hmeasured⟩
    refine except_bind_eq_ok.2 ⟨sorting, hvalid, except_bind_eq_ok.2 ⟨testCases, htestCases, ?_⟩⟩
    exact except_bind_eq_ok.2 ⟨groups, hgroups, hresult⟩

end Settings

end StripePruning
