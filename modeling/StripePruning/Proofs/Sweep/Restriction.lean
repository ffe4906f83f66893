import StripePruning.Proofs.Sweep.Reports

/-!
# Runs that keep a part of what is compared

The indexes that a run compares do not influence each other.  Two runs are put side by side, each
with stopwatches of its own: one keeps some of the stripe sizes and configurations of the other.

* `IsUnclocked` is what can be said of reports whatever the stopwatches show:
  `isUnclocked_uncounted` and `isUnclocked_untimed` say what that is.
* `keepAt` keeps a part of a list by positions, and `flatMap_keepAt` and `filterMap_keepAt` carry
  this through the loops of a run.
* `Combination` is a turn of all loops.  `Settings.run_restrict`: the reports of the run that
  keeps less are those of the full run for the combinations that are kept, but for what the timed
  series count.  `Settings.run_restrict_count_differs` shows that this exception is needed.
-/

namespace StripePruning

/-! ## What does not depend on the stopwatches -/

namespace Report

/-- A report without the times of its series. -/
def untimed (r : Report) : Report :=
  { r with lookups := r.lookups.map LookupMeasurement.untimed }

/-- A report without the times of its series and without their numbers of lookups. -/
def uncounted (r : Report) : Report :=
  { r with lookups := r.lookups.map LookupMeasurement.uncounted }

end Report

namespace Sweep

/-- Something about reports that does not depend on the stopwatches of a run. -/
def IsUnclocked (files : Files) (s : Settings) (testCases : List TestCase)
    (erase : Report → Report) : Prop :=
  ∀ c stripeSize config report, reportOn files s testCases c stripeSize config = some report →
    ∀ timer timer', erase (report timer) = erase (report timer')

variable {files : Files} {timer : Timer} {s : Settings} {testCases : List TestCase} {c : Column}
  {stripeSize : Nat} {config : IndexConfig}

theorem found_of_reportOn {report : Timer → Report}
    (h : reportOn files s testCases c stripeSize config = some report) :
    ∃ batches evaluator index, drawBatches s c = .ok batches ∧
      (Bench.ofSettings s testCases c stripeSize evaluator batches).found files index
        = .ok report := by
  have hcell : cell files s testCases c stripeSize config = .ok (some report) := by
    rw [reportOn] at h
    cases hcell : cell files s testCases c stripeSize config with
    | error error =>
      rw [hcell] at h
      cases h
    | ok found =>
      rw [hcell] at h
      exact congrArg Except.ok h
  obtain ⟨batches, hbatches, hcell⟩ := except_bind_eq_ok.1 hcell
  obtain ⟨evaluator, -, hcell⟩ := except_bind_eq_ok.1 hcell
  split at hcell
  · rename_i index _
    obtain ⟨r, hfound, hr⟩ := except_map_eq_ok.1 hcell
    obtain rfl := Option.some.inj hr
    exact ⟨batches, evaluator, index, hbatches, hfound⟩
  · split at hcell
    · cases hcell
    · cases hcell

theorem flatMap_zipIdx {α β : Type} (values : List α) (f : α → List β) :
    (values.zipIdx.flatMap fun entry => f entry.1) = values.flatMap f := by
  rw [← List.flatMap_map Prod.fst, List.zipIdx_map_fst]

theorem filterMap_zipIdx {α β : Type} (values : List α) (f : α → Option β) :
    (values.zipIdx.filterMap fun entry => f entry.1) = values.filterMap f := by
  conv_rhs => rw [← List.zipIdx_map_fst 0 values, List.filterMap_map]
  rfl

theorem isUnclocked_uncounted (files : Files) (s : Settings) (testCases : List TestCase) :
    IsUnclocked files s testCases Report.uncounted := by
  intro c stripeSize config report h timer timer'
  obtain ⟨batches, evaluator, index, -, hfound⟩ := found_of_reportOn h
  obtain ⟨effectiveness, segments, -, -, hreport⟩ := Bench.found_eq_ok hfound
  rw [hreport, hreport]
  simp only [Report.uncounted, Bench.measurements, List.map_map, Function.comp_def,
    LookupMeasurement.uncounted_measure]

/-- Without series, or without a least time for them, only times depend on the stopwatches. -/
theorem isUnclocked_untimed (files : Files) (testCases : List TestCase)
    (h : s.benchmarks = false ∨ s.minBenchMillis = 0) :
    IsUnclocked files s testCases Report.untimed := by
  intro c stripeSize config report hreport timer timer'
  obtain ⟨batches, evaluator, index, hbatches, hfound⟩ := found_of_reportOn hreport
  obtain ⟨effectiveness, segments, -, -, hreport⟩ := Bench.found_eq_ok hfound
  rw [hreport, hreport]
  rcases h with hbenchmarks | hmillis
  · obtain rfl : batches = [] := by
      rw [drawBatches, hbenchmarks] at hbatches
      exact (Except.ok.inj hbatches).symm
    rfl
  · have hleast : s.minBenchTime.totalNanos = 0 := by
      rw [Settings.minBenchTime, hmillis]
      rfl
    simp only [Report.untimed, Bench.measurements, Bench.ofSettings, List.map_map,
      Function.comp_def, LookupMeasurement.untimed_measure _ hleast]

variable {erase : Report → Report}

/-- What does not depend on the stopwatches of the report on one combination. -/
def erasedOn (files : Files) (s : Settings) (testCases : List TestCase) (erase : Report → Report)
    (timer : Timer) (c : Column) (stripeSize : Nat) (config : IndexConfig) : Option Report :=
  (reportOn files s testCases c stripeSize config).map fun report => erase (report timer)

/-- The stopwatches of one run stand for those of all others. -/
theorem map_reportOn (herase : IsUnclocked files s testCases erase) (timer timer' : Timer) :
    ((reportOn files s testCases c stripeSize config).map fun report => report timer').map erase
      = erasedOn files s testCases erase timer c stripeSize config := by
  rw [erasedOn]
  cases hreport : reportOn files s testCases c stripeSize config with
  | none => rfl
  | some report => exact congrArg some (herase c stripeSize config report hreport timer' timer)

theorem map_reportsOnSize (herase : IsUnclocked files s testCases erase) (timer timer' : Timer) :
    (reportsOnSize files s testCases timer' c stripeSize).map erase
      = s.indexes.filterMap (erasedOn files s testCases erase timer c stripeSize) := by
  rw [reportsOnSize, List.map_filterMap,
    ← filterMap_zipIdx s.indexes (erasedOn files s testCases erase timer c stripeSize)]
  exact List.filterMap_congr fun entry _ => map_reportOn herase timer _

theorem map_reportsOn (herase : IsUnclocked files s testCases erase) (timer timer' : Timer) :
    (reportsOn files s testCases timer' c).map erase
      = s.stripeSizes.flatMap fun stripeSize =>
          s.indexes.filterMap (erasedOn files s testCases erase timer c stripeSize) := by
  rw [reportsOn, List.map_flatMap, ← flatMap_zipIdx s.stripeSizes fun stripeSize =>
    s.indexes.filterMap (erasedOn files s testCases erase timer c stripeSize)]
  exact List.flatMap_congr fun entry _ => map_reportsOnSize herase timer _

end Sweep

/-! ## Keeping some of the combinations -/

/-- The values at the positions that are kept. -/
def keepAt {α : Type} (keep : Nat → Bool) (values : List α) : List α :=
  (values.zipIdx.filter fun entry => keep entry.2).map Prod.fst

theorem mem_of_mem_keepAt {α : Type} {keep : Nat → Bool} {values : List α} {value : α}
    (h : value ∈ keepAt keep values) : value ∈ values := by
  obtain ⟨entry, hentry, rfl⟩ := List.mem_map.1 h
  exact List.fst_mem_of_mem_zipIdx (List.mem_filter.1 hentry).1

/-- A loop over the values that are kept is a loop over all of them that passes over the
others. -/
theorem flatMap_keepAt {α β : Type} (keep : Nat → Bool) (values : List α) (f : α → List β) :
    (keepAt keep values).flatMap f
      = values.zipIdx.flatMap fun entry => if keep entry.2 then f entry.1 else [] := by
  rw [keepAt, List.flatMap_map]
  induction values.zipIdx with
  | nil => rfl
  | cons entry rest ih =>
    rw [List.filter_cons, List.flatMap_cons]
    cases keep entry.2 with
    | false => exact ih
    | true => exact congrArg (f entry.1 ++ ·) ih

theorem filterMap_keepAt {α β : Type} (keep : Nat → Bool) (values : List α) (f : α → Option β) :
    (keepAt keep values).filterMap f
      = values.zipIdx.filterMap fun entry => if keep entry.2 then f entry.1 else none := by
  rw [keepAt, List.filterMap_map, List.filterMap_filter]
  rfl

/-- A combination that a sweep compares, with the positions of its parts. -/
structure Sweep.Combination where
  column : Column
  stripeSize : Nat
  config : IndexConfig
  sourcePosition : Nat
  columnPosition : Nat
  sizePosition : Nat
  configPosition : Nat

/-- The stopwatches of a combination. -/
def Sweep.Combination.timer (p : Combination) (timer : Timer) : Timer :=
  (((timer.turn p.sourcePosition).turn p.columnPosition).turn p.sizePosition).turn
    p.configPosition

namespace Settings

open Sweep

variable {files : Files} {timer : Timer} {s : Settings} {reports : List Report}

/-- The combinations of the columns of some tables with the stripe sizes and configurations of a
run, in the order of the run. -/
def combinations (s : Settings) (tables : List Table) : List Combination :=
  tables.zipIdx.flatMap fun table =>
    table.1.columns.zipIdx.flatMap fun column =>
      s.stripeSizes.zipIdx.flatMap fun stripeSize =>
        s.indexes.zipIdx.map fun config =>
          { column := column.1
            stripeSize := stripeSize.1
            config := config.1
            sourcePosition := table.2
            columnPosition := column.2
            sizePosition := stripeSize.2
            configPosition := config.2 }

/-- The settings with some of the stripe sizes and configurations. -/
def restrict (s : Settings) (keepSize keepConfig : Nat → Bool) : Settings :=
  { s with
    stripeSizes := keepAt keepSize s.stripeSizes
    indexes := keepAt keepConfig s.indexes }

theorem mem_of_mem_combinations {tables : List Table} {p : Combination}
    (h : p ∈ s.combinations tables) :
    (∃ table, table ∈ tables ∧ p.column ∈ table.columns) ∧ p.stripeSize ∈ s.stripeSizes ∧
      p.config ∈ s.indexes := by
  obtain ⟨table, htable, h⟩ := List.mem_flatMap.1 h
  obtain ⟨c, hc, h⟩ := List.mem_flatMap.1 h
  obtain ⟨size, hsize, h⟩ := List.mem_flatMap.1 h
  obtain ⟨config, hconfig, rfl⟩ := List.mem_map.1 h
  exact ⟨⟨table.1, List.fst_mem_of_mem_zipIdx htable, List.fst_mem_of_mem_zipIdx hc⟩,
    List.fst_mem_of_mem_zipIdx hsize, List.fst_mem_of_mem_zipIdx hconfig⟩

/-- Valid settings stay valid as long as a stripe size and a configuration are kept. -/
theorem validate_restrict {sorting : Sorting} (hvalid : s.validate files = .ok sorting)
    {keepSize keepConfig : Nat → Bool} (hsizes : keepAt keepSize s.stripeSizes ≠ [])
    (hindexes : keepAt keepConfig s.indexes ≠ []) :
    (s.restrict keepSize keepConfig).validate files = .ok sorting := by
  obtain ⟨hsorting, ⟨-, hzero, -⟩, hrest⟩ := validate_eq_ok_iff.1 hvalid
  have hzero' : 0 ∉ keepAt keepSize s.stripeSizes := fun h => hzero (mem_of_mem_keepAt h)
  exact validate_eq_ok_iff.2 ⟨hsorting, ⟨hsizes, hzero', hindexes⟩, hrest⟩

/-- What is found for the combinations is what the loops find, from the outside in. -/
theorem filterMap_combinations {β : Type} (s : Settings) (tables : List Table)
    (f : Combination → Option β) :
    (s.combinations tables).filterMap f
      = tables.zipIdx.flatMap fun table =>
          table.1.columns.zipIdx.flatMap fun column =>
            s.stripeSizes.zipIdx.flatMap fun stripeSize =>
              s.indexes.zipIdx.filterMap fun config =>
                f { column := column.1
                    stripeSize := stripeSize.1
                    config := config.1
                    sourcePosition := table.2
                    columnPosition := column.2
                    sizePosition := stripeSize.2
                    configPosition := config.2 } := by
  simp only [combinations, List.filterMap_flatMap, List.filterMap_map]
  rfl

/-- The report on a combination in a run with some stopwatches, if there is one. -/
def reportIn (files : Files) (s : Settings) (testCases : List TestCase) (timer : Timer)
    (p : Combination) : Option Report :=
  (reportOn files s testCases p.column p.stripeSize p.config).map fun report =>
    report (p.timer timer)

theorem filterMap_reportIn (s : Settings) (testCases : List TestCase) (tables : List Table) :
    (s.combinations tables).filterMap (s.reportIn files testCases timer)
      = tables.zipIdx.flatMap fun entry =>
          reportsOnTable files s testCases (timer.turn entry.2) entry.1 :=
  filterMap_combinations s tables _

/-- The reports of a run that keeps some stripe sizes and configurations are those of the full
run for the kept combinations, in all that does not depend on the stopwatches. -/
theorem map_reportsOnTable_restrict {testCases : List TestCase} {erase : Report → Report}
    (herase : IsUnclocked files s testCases erase) (tables : List Table)
    (keepSize keepConfig : Nat → Bool) (timer timer' : Timer) :
    (tables.zipIdx.flatMap fun entry =>
        reportsOnTable files (s.restrict keepSize keepConfig) testCases (timer'.turn entry.2)
          entry.1).map erase
      = (((s.combinations tables).filter fun p =>
          keepSize p.sizePosition && keepConfig p.configPosition).filterMap
            (s.reportIn files testCases timer)).map erase := by
  have hkept : IsUnclocked files (s.restrict keepSize keepConfig) testCases erase := herase
  rw [List.filterMap_filter, List.map_filterMap, filterMap_combinations, List.map_flatMap]
  refine List.flatMap_congr fun table _ => ?_
  rw [reportsOnTable, List.map_flatMap]
  refine List.flatMap_congr fun column _ => ?_
  rw [map_reportsOn hkept timer]
  show (keepAt keepSize s.stripeSizes).flatMap (fun stripeSize =>
    (keepAt keepConfig s.indexes).filterMap
      (erasedOn files s testCases erase timer column.1 stripeSize)) = _
  rw [flatMap_keepAt]
  refine List.flatMap_congr fun stripeSize _ => ?_
  by_cases hsize : keepSize stripeSize.2 = true
  · rw [if_pos hsize, filterMap_keepAt]
    refine List.filterMap_congr fun config _ => ?_
    by_cases hconfig : keepConfig config.2 = true
    · simp only [hsize, hconfig, Bool.and_self, if_true]
      exact (map_reportOn herase timer _).symm
    · simp [hsize, hconfig]
  · simp [hsize]

/-- The reports of a run, one for each combination whose index is built, do not depend on what
else is compared: a run that keeps some of the stripe sizes and some of the configurations,
by their positions, succeeds too, and its reports are those of the full run for the
combinations that are kept.

Each of the two runs has stopwatches of its own, so their reports may differ in the times of
their series and in how often a series repeats its batch before its least time is over.
Without a least time, or without series, the numbers of lookups are the same too. -/
theorem run_restrict (hrun : (s.run files timer).result = .ok reports) :
    ∃ sorting testCases tables, s.validate files = .ok sorting ∧
      s.parsedTestCases = .ok testCases ∧
      (Source.ofSettings s).mapM (Source.table files sorting) = .ok tables ∧
      ∃ report : Combination → Option Report,
        (∀ p, p ∈ s.combinations tables →
          (∃ index r, p.config.build p.column p.stripeSize = .ok index ∧ report p = some r ∧
              r.IsAbout files s testCases (p.timer timer) p.column p.stripeSize index) ∨
            ∃ error, p.config.build p.column p.stripeSize = .error error ∧
              error.isConstruction = true ∧ report p = none) ∧
        reports = (s.combinations tables).filterMap report ∧
        ∀ (keepSize keepConfig : Nat → Bool) (timer' : Timer),
          keepAt keepSize s.stripeSizes ≠ [] → keepAt keepConfig s.indexes ≠ [] →
          ∃ kept, ((s.restrict keepSize keepConfig).run files timer').result = .ok kept ∧
            kept.map Report.uncounted
              = (((s.combinations tables).filter fun p =>
                  keepSize p.sizePosition && keepConfig p.configPosition).filterMap
                    report).map Report.uncounted ∧
            (s.benchmarks = false ∨ s.minBenchMillis = 0 →
              kept.map Report.untimed
                = (((s.combinations tables).filter fun p =>
                    keepSize p.sizePosition && keepConfig p.configPosition).filterMap
                      report).map Report.untimed) := by
  obtain ⟨sorting, testCases, tables, hvalid, htestCases, htables, hsucceeds, hreports⟩ :=
    run_eq_ok_iff.1 hrun
  obtain ⟨-, ⟨-, hzero, -⟩, -⟩ := validate_eq_ok_iff.1 hvalid
  refine ⟨sorting, testCases, tables, hvalid, htestCases, htables,
    s.reportIn files testCases timer, ?_, ?_, ?_⟩
  · intro p hp
    obtain ⟨⟨table, htable, hcolumn⟩, hsize, hconfig⟩ := mem_of_mem_combinations hp
    have hpos : 0 < p.stripeSize := Nat.pos_of_ne_zero fun h => hzero (h ▸ hsize)
    have hcell := cell_eq_reportOn
      (hsucceeds table htable p.column hcolumn p.stripeSize hsize p.config hconfig)
    rcases cell_cases hpos hcell with
      ⟨index, r, hbuild, hr, habout⟩ | ⟨error, hbuild, hconstruction, hr⟩
    · refine Or.inl ⟨index, r (p.timer timer), hbuild, ?_, habout _⟩
      rw [reportIn, hr]
      rfl
    · refine Or.inr ⟨error, hbuild, hconstruction, ?_⟩
      rw [reportIn, hr]
      rfl
  · rw [filterMap_reportIn]
    exact hreports
  · intro keepSize keepConfig timer' hsizes hindexes
    -- The cells of the restricted run are cells of the full run, and they read no setting that
    -- is restricted.
    have hkept (table : Table) (htable : table ∈ tables) (c : Column) (hc : c ∈ table.columns) :
        Succeeds files (s.restrict keepSize keepConfig) testCases c :=
      fun stripeSize hsize config hconfig => hsucceeds table htable c hc stripeSize
        (mem_of_mem_keepAt hsize) config (mem_of_mem_keepAt hconfig)
    refine ⟨_, run_eq_ok_iff.2 ⟨sorting, testCases, tables,
      validate_restrict hvalid hsizes hindexes, htestCases, htables, hkept, rfl⟩, ?_, ?_⟩
    · exact map_reportsOnTable_restrict (isUnclocked_uncounted files s testCases) tables keepSize
        keepConfig timer timer'
    · intro hunclocked
      exact map_reportsOnTable_restrict (isUnclocked_untimed files testCases hunclocked) tables
        keepSize keepConfig timer timer'

/-- The files of a small comparison: a column of three values and a workload of two queries. -/
def smallFiles : Files :=
  .ofList [("t.csv", "v\n7\n8\n8\n".toUTF8),
    ("q.txt", "selectivity a\npoint:7\nrange:7,8\n".toUTF8)]

/-- Settings that compare everything there is: a stripe size twice, a configuration that cannot be
built, a test case, series with a least time of a millisecond, and a workload. -/
def smallComparison : Settings :=
  { datasets := [{ path := "t.csv", columns := ["v"] }]
    stripeSizes := [2, 1, 2]
    indexes := [.perStripeBloom 1.5, .zoneMap, .perValueBitmap]
    testCases := ["negative"]
    lookups := 2
    benchmarks := true
    batchSize := 2
    minBenchMillis := 1
    workload := some "q.txt" }

/-- Stopwatches on which two milliseconds go by with each pass. -/
def slow : Timer :=
  .uniform (.ticking 2000000)

/-- Stopwatches on which half a millisecond goes by with each pass. -/
def fast : Timer :=
  .uniform (.ticking 500000)

/-- The lookups that the series of a run count, if it succeeds. -/
def countsOf (outcome : Logged (List Report)) : Option (List (List Nat)) :=
  outcome.result.toOption.map fun reports =>
    reports.map fun r => r.lookups.map LookupMeasurement.lookups

theorem exists_of_countsOf {outcome : Logged (List Report)} {counts : List (List Nat)}
    (h : countsOf outcome = some counts) : ∃ reports, outcome.result = .ok reports ∧
      (reports.map fun r => r.lookups.map LookupMeasurement.lookups) = counts := by
  rw [countsOf] at h
  cases hresult : outcome.result with
  | error error =>
    rw [hresult] at h
    cases h
  | ok reports =>
    rw [hresult] at h
    exact ⟨reports, rfl, Option.some.inj h⟩

/-- The second of two equal stripe sizes with the configurations that can be built. -/
theorem run_restrict_repeated_size :
    ∃ reports kept, (smallComparison.run smallFiles fast).result = .ok reports ∧
      ((smallComparison.restrict (· == 2) (· != 0)).run smallFiles slow).result = .ok kept ∧
      reports.length = 6 ∧ kept.length = 2 ∧
      (kept.map Report.uncounted).Sublist (reports.map Report.uncounted) := by
  have hfull : countsOf (smallComparison.run smallFiles fast)
      = some (List.replicate 6 [4, 4]) := by decide +kernel
  have hpart : countsOf ((smallComparison.restrict (· == 2) (· != 0)).run smallFiles slow)
      = some (List.replicate 2 [2, 2]) := by decide +kernel
  obtain ⟨reports, hrun, hcounts⟩ := exists_of_countsOf hfull
  obtain ⟨kept, hkept, hkeptCounts⟩ := exists_of_countsOf hpart
  obtain ⟨_, _, _, _, _, _, report, -, hreports, hrestrict⟩ := run_restrict hrun
  obtain ⟨kept', hkept', huncounted, -⟩ :=
    hrestrict (· == 2) (· != 0) slow (by decide) (by decide)
  obtain rfl : kept = kept' := Except.ok.inj (hkept.symm.trans hkept')
  refine ⟨reports, kept, hrun, hkept, ?_, ?_, ?_⟩
  · simpa using congrArg List.length hcounts
  · simpa using congrArg List.length hkeptCounts
  · rw [huncounted, hreports]
    exact (List.filter_sublist.filterMap _).map _

/-- How often a series repeats its batch is up to the stopwatch: with a least time, the reports of a
run that keeps a part of what is compared may count other lookups than those of the full run. -/
theorem run_restrict_count_differs :
    ∃ reports kept, (smallComparison.run smallFiles fast).result = .ok reports ∧
      ((smallComparison.restrict (· == 2) (· == 1)).run smallFiles slow).result = .ok kept ∧
      (reports.map fun r => r.lookups.map LookupMeasurement.lookups) = List.replicate 6 [4, 4] ∧
      (kept.map fun r => r.lookups.map LookupMeasurement.lookups) = [[2, 2]] := by
  have hfull : countsOf (smallComparison.run smallFiles fast)
      = some (List.replicate 6 [4, 4]) := by decide +kernel
  have hpart : countsOf ((smallComparison.restrict (· == 2) (· == 1)).run smallFiles slow)
      = some [[2, 2]] := by decide +kernel
  obtain ⟨reports, hrun, hcounts⟩ := exists_of_countsOf hfull
  obtain ⟨kept, hkept, hkeptCounts⟩ := exists_of_countsOf hpart
  exact ⟨reports, kept, hrun, hkept, hcounts, hkeptCounts⟩

end Settings

end StripePruning
