import StripePruning.Proofs.CommandLine.Words

/-!
# What a command line gives

The words of a command line spell uses of flags, and every argument is what the values of its own
flag are read as.

* `GivenBy` says this flag by flag, with `Once` for a flag that can be given once and `Each` for
  one with a list.
* `Becomes` is the invariant of making the uses one after the other: from the values that are still
  to come, an argument becomes what it is in the end.  `Becomes.uncons` and `Becomes.cons` make the
  first use, and `foldlM_use_iff` all of them.
* `parse_eq_ok_iff`: the command lines that are accepted, and their arguments.
-/

namespace StripePruning

namespace CommandLine

/-! ## Values -/

/-- The values that a flag is given, in their order. -/
def valuesOf (flag : ValueFlag) : List Use → List RawText
  | [] => []
  | .value other value :: uses =>
    if other = flag then value :: valuesOf flag uses else valuesOf flag uses
  | .benchmarks :: uses => valuesOf flag uses

section Values

variable {α : Type} {flag : ValueFlag} {read : RawText → Except UsageFault α}
  {values : List RawText}

/-- What a flag is read as that can be given once: nothing without a value, and what its only value
is read as. -/
inductive Once (read : RawText → Except UsageFault α) : List RawText → Option α → Prop
  | leftOut : Once read [] none
  | given {value : RawText} {x : α} (h : read value = .ok x) : Once read [value] (some x)

/-- What a flag with a list is read as: the parts of all its values between commas. -/
def Each (read : RawText → Except UsageFault α) (values : List RawText) (results : List α) : Prop :=
  (values.flatMap commaParts).mapM read = .ok results

/-- One more value for a flag that can be given once. -/
def onceMore (flag : ValueFlag) (read : RawText → Except UsageFault α) (before : Option α)
    (value : RawText) : Except UsageFault (Option α) :=
  once flag before (read value)

/-- One more value for a flag with a list. -/
def eachMore (parts : RawText → List RawText) (read : RawText → Except UsageFault α)
    (before : List α) (value : RawText) : Except UsageFault (List α) :=
  (parts value).mapM read >>= fun results => .ok (before ++ results)

theorem eachMore_eq_ok_iff {parts : RawText → List RawText} {before results : List α}
    {value : RawText} : eachMore parts read before value = .ok results ↔
      ∃ new, (parts value).mapM read = .ok new ∧ before ++ new = results := by
  simp only [eachMore, except_bind_eq_ok, Except.ok.injEq]

theorem eachMore_ok (parts : RawText → List RawText) (before : List α) {new : List α}
    {value : RawText} (h : (parts value).mapM read = .ok new) :
    eachMore parts read before value = .ok (before ++ new) :=
  eachMore_eq_ok_iff.2 ⟨new, h, rfl⟩

theorem mapM_singleton_eq_ok_iff {value : RawText} {results : List α} :
    [value].mapM read = .ok results ↔ ∃ x, read value = .ok x ∧ [x] = results := by
  simp only [List.mapM_cons, List.mapM_nil, except_bind_eq_ok, pure, Except.pure, Except.ok.injEq,
    exists_eq_left']

theorem foldlM_onceMore_iff {result : Option α} :
    values.foldlM (onceMore flag read) none = .ok result ↔ Once read values result := by
  constructor
  · intro h
    cases values with
    | nil =>
      obtain rfl := Except.ok.inj h
      exact .leftOut
    | cons value rest =>
      obtain ⟨first, hfirst, hrest⟩ := except_bind_eq_ok.1 h
      obtain ⟨x, hread, rfl⟩ := except_map_eq_ok.1 hfirst
      cases rest with
      | nil =>
        obtain rfl := Except.ok.inj hrest
        exact .given hread
      | cons second rest =>
        obtain ⟨next, hnext, -⟩ := except_bind_eq_ok.1 hrest
        cases hnext
  · intro h
    cases h with
    | leftOut => rfl
    | given h =>
      show (onceMore flag read none _ >>= fun first => .ok first) = _
      rw [onceMore, h]
      rfl

theorem foldlM_eachMore_iff {parts : RawText → List RawText} {before results : List α} :
    values.foldlM (eachMore parts read) before = .ok results ↔
      ∃ new, (values.flatMap parts).mapM read = .ok new ∧ before ++ new = results := by
  induction values generalizing before with
  | nil => simp [pure, Except.pure]
  | cons value rest ih =>
    simp only [List.foldlM_cons, List.flatMap_cons, List.mapM_append, except_bind_eq_ok, eachMore,
      ih, pure, Except.pure, Except.ok.injEq]
    constructor
    · rintro ⟨_, ⟨first, hfirst, rfl⟩, others, hothers, rfl⟩
      exact ⟨_, ⟨first, hfirst, others, hothers, rfl⟩, (List.append_assoc ..).symm⟩
    · rintro ⟨_, ⟨first, hfirst, others, hothers, rfl⟩, rfl⟩
      exact ⟨_, ⟨first, hfirst, rfl⟩, others, hothers, List.append_assoc ..⟩

end Values

namespace Arguments

/-- The arguments are what the values of their flags are read as, and the switch is turned on if it
is given. -/
structure GivenBy (uses : List Use) (a : Arguments) : Prop where
  config : Once (readPath .config) (valuesOf .config uses) a.config
  rows : Once (readSize .rows) (valuesOf .rows uses) a.rows
  uniqueValues : Once (readSize .uniqueValues) (valuesOf .uniqueValues uses) a.uniqueValues
  inputFile : Once (readPath .inputFile) (valuesOf .inputFile uses) a.inputFile
  columns : Each (readText .columns) (valuesOf .columns uses) a.columns
  sorting : Once (readText .sorting) (valuesOf .sorting uses) a.sorting
  stripeSizes : Each (readSize .stripeSizes) (valuesOf .stripeSizes uses) a.stripeSizes
  indexes : (valuesOf .index uses).mapM (readIndex .index) = .ok a.indexes
  testCases : Each (readText .testCases) (valuesOf .testCases uses) a.testCases
  lookups : Once (readSize .lookups) (valuesOf .lookups uses) a.lookups
  workload : Once (readPath .workload) (valuesOf .workload uses) a.workload
  benchmarks : uses.count .benchmarks = a.benchmarks.toNat
  batchSize : Once (readSize .batchSize) (valuesOf .batchSize uses) a.batchSize
  minBenchMillis : Once (readSize .minBenchMillis) (valuesOf .minBenchMillis uses) a.minBenchMillis

/-- What becomes of every argument if uses are made one after the other: it depends on the values
of its own flag and on nothing else. -/
structure Becomes (uses : List Use) (a a' : Arguments) : Prop where
  config : (valuesOf .config uses).foldlM (onceMore .config (readPath .config))
    a.config = .ok a'.config
  rows : (valuesOf .rows uses).foldlM (onceMore .rows (readSize .rows))
    a.rows = .ok a'.rows
  uniqueValues :
    (valuesOf .uniqueValues uses).foldlM (onceMore .uniqueValues (readSize .uniqueValues))
      a.uniqueValues = .ok a'.uniqueValues
  inputFile : (valuesOf .inputFile uses).foldlM (onceMore .inputFile (readPath .inputFile))
    a.inputFile = .ok a'.inputFile
  columns : (valuesOf .columns uses).foldlM (eachMore commaParts (readText .columns))
    a.columns = .ok a'.columns
  sorting : (valuesOf .sorting uses).foldlM (onceMore .sorting (readText .sorting))
    a.sorting = .ok a'.sorting
  stripeSizes : (valuesOf .stripeSizes uses).foldlM (eachMore commaParts (readSize .stripeSizes))
    a.stripeSizes = .ok a'.stripeSizes
  indexes : (valuesOf .index uses).foldlM (eachMore (fun value => [value]) (readIndex .index))
    a.indexes = .ok a'.indexes
  testCases : (valuesOf .testCases uses).foldlM (eachMore commaParts (readText .testCases))
    a.testCases = .ok a'.testCases
  lookups : (valuesOf .lookups uses).foldlM (onceMore .lookups (readSize .lookups))
    a.lookups = .ok a'.lookups
  workload : (valuesOf .workload uses).foldlM (onceMore .workload (readPath .workload))
    a.workload = .ok a'.workload
  batchSize : (valuesOf .batchSize uses).foldlM (onceMore .batchSize (readSize .batchSize))
    a.batchSize = .ok a'.batchSize
  minBenchMillis :
    (valuesOf .minBenchMillis uses).foldlM (onceMore .minBenchMillis (readSize .minBenchMillis))
      a.minBenchMillis = .ok a'.minBenchMillis
  benchmarks : uses.count .benchmarks + a.benchmarks.toNat = a'.benchmarks.toNat

variable {a a' : Arguments} {use : Use} {uses : List Use}

theorem becomes_nil_iff : Becomes [] a a' ↔ a = a' := by
  constructor
  · intro h
    have hbenchmarks : a.benchmarks = a'.benchmarks := by
      have hcount := h.benchmarks
      cases hbefore : a.benchmarks <;> cases hafter : a'.benchmarks <;>
        simp [hbefore, hafter] at hcount ⊢
    ext1
    exacts [Except.ok.inj h.config, Except.ok.inj h.rows, Except.ok.inj h.uniqueValues,
      Except.ok.inj h.inputFile, Except.ok.inj h.columns, Except.ok.inj h.sorting,
      Except.ok.inj h.stripeSizes, Except.ok.inj h.indexes, Except.ok.inj h.testCases,
      Except.ok.inj h.lookups, Except.ok.inj h.workload, hbenchmarks, Except.ok.inj h.batchSize,
      Except.ok.inj h.minBenchMillis]
  · rintro rfl
    constructor
    all_goals first | rfl | simp

/-- A use is made before the others if all together make of the arguments what they become. -/
theorem Becomes.uncons (h : Becomes (use :: uses) a a') :
    ∃ b, a.use use = .ok b ∧ Becomes uses b a' := by
  rcases use with ⟨flag, value⟩ | _
  case benchmarks =>
    have hcount : uses.count .benchmarks + 1 + a.benchmarks.toNat = a'.benchmarks.toNat := by
      rw [← h.benchmarks, List.count_cons_self]
    have hoff : a.benchmarks = false := by
      cases hbefore : a.benchmarks with
      | false => rfl
      | true =>
        have hle := Bool.toNat_le a'.benchmarks
        rw [hbefore, Bool.toNat_true] at hcount
        omega
    have huse : a.use .benchmarks = .ok { a with benchmarks := true } := by
      simp [Arguments.use, Arguments.turnOn, hoff]
    rw [hoff] at hcount
    exact ⟨_, huse, { h with benchmarks := hcount }⟩
  cases flag
  case config =>
    obtain ⟨next, hnext, hrest⟩ := except_bind_eq_ok.1 h.config
    exact ⟨_, except_bind_eq_ok.2 ⟨next, hnext, rfl⟩, { h with config := hrest }⟩
  case rows =>
    obtain ⟨next, hnext, hrest⟩ := except_bind_eq_ok.1 h.rows
    exact ⟨_, except_bind_eq_ok.2 ⟨next, hnext, rfl⟩, { h with rows := hrest }⟩
  case uniqueValues =>
    obtain ⟨next, hnext, hrest⟩ := except_bind_eq_ok.1 h.uniqueValues
    exact ⟨_, except_bind_eq_ok.2 ⟨next, hnext, rfl⟩, { h with uniqueValues := hrest }⟩
  case inputFile =>
    obtain ⟨next, hnext, hrest⟩ := except_bind_eq_ok.1 h.inputFile
    exact ⟨_, except_bind_eq_ok.2 ⟨next, hnext, rfl⟩, { h with inputFile := hrest }⟩
  case sorting =>
    obtain ⟨next, hnext, hrest⟩ := except_bind_eq_ok.1 h.sorting
    exact ⟨_, except_bind_eq_ok.2 ⟨next, hnext, rfl⟩, { h with sorting := hrest }⟩
  case lookups =>
    obtain ⟨next, hnext, hrest⟩ := except_bind_eq_ok.1 h.lookups
    exact ⟨_, except_bind_eq_ok.2 ⟨next, hnext, rfl⟩, { h with lookups := hrest }⟩
  case workload =>
    obtain ⟨next, hnext, hrest⟩ := except_bind_eq_ok.1 h.workload
    exact ⟨_, except_bind_eq_ok.2 ⟨next, hnext, rfl⟩, { h with workload := hrest }⟩
  case batchSize =>
    obtain ⟨next, hnext, hrest⟩ := except_bind_eq_ok.1 h.batchSize
    exact ⟨_, except_bind_eq_ok.2 ⟨next, hnext, rfl⟩, { h with batchSize := hrest }⟩
  case minBenchMillis =>
    obtain ⟨next, hnext, hrest⟩ := except_bind_eq_ok.1 h.minBenchMillis
    exact ⟨_, except_bind_eq_ok.2 ⟨next, hnext, rfl⟩, { h with minBenchMillis := hrest }⟩
  case columns =>
    obtain ⟨_, hnext, hrest⟩ := except_bind_eq_ok.1 h.columns
    obtain ⟨parts, hparts, rfl⟩ := eachMore_eq_ok_iff.1 hnext
    exact ⟨_, except_bind_eq_ok.2 ⟨parts, hparts, rfl⟩, { h with columns := hrest }⟩
  case stripeSizes =>
    obtain ⟨_, hnext, hrest⟩ := except_bind_eq_ok.1 h.stripeSizes
    obtain ⟨parts, hparts, rfl⟩ := eachMore_eq_ok_iff.1 hnext
    exact ⟨_, except_bind_eq_ok.2 ⟨parts, hparts, rfl⟩, { h with stripeSizes := hrest }⟩
  case testCases =>
    obtain ⟨_, hnext, hrest⟩ := except_bind_eq_ok.1 h.testCases
    obtain ⟨parts, hparts, rfl⟩ := eachMore_eq_ok_iff.1 hnext
    exact ⟨_, except_bind_eq_ok.2 ⟨parts, hparts, rfl⟩, { h with testCases := hrest }⟩
  case index =>
    obtain ⟨_, hnext, hrest⟩ := except_bind_eq_ok.1 h.indexes
    obtain ⟨items, hitems, rfl⟩ := eachMore_eq_ok_iff.1 hnext
    obtain ⟨item, hitem, rfl⟩ := mapM_singleton_eq_ok_iff.1 hitems
    exact ⟨_, except_bind_eq_ok.2 ⟨item, hitem, rfl⟩, { h with indexes := hrest }⟩

/-- All uses together make of the arguments what they become if a first use is made. -/
theorem Becomes.cons {b : Arguments} (huse : a.use use = .ok b) (h : Becomes uses b a') :
    Becomes (use :: uses) a a' := by
  rcases use with ⟨flag, value⟩ | _
  case benchmarks =>
    rw [Arguments.use, Arguments.turnOn] at huse
    split at huse
    · cases huse
    · rename_i hoff
      obtain rfl := Except.ok.inj huse
      have hcount : (Use.benchmarks :: uses).count .benchmarks + a.benchmarks.toNat
          = a'.benchmarks.toNat := by
        rw [← h.benchmarks, List.count_cons_self, Bool.eq_false_iff.2 hoff]
        rfl
      exact { h with benchmarks := hcount }
  cases flag
  all_goals
    obtain ⟨next, hnext, hb⟩ := except_bind_eq_ok.1 huse
    obtain rfl := Except.ok.inj hb
  case config => exact { h with config := except_bind_eq_ok.2 ⟨next, hnext, h.config⟩ }
  case rows => exact { h with rows := except_bind_eq_ok.2 ⟨next, hnext, h.rows⟩ }
  case uniqueValues =>
    exact { h with uniqueValues := except_bind_eq_ok.2 ⟨next, hnext, h.uniqueValues⟩ }
  case inputFile => exact { h with inputFile := except_bind_eq_ok.2 ⟨next, hnext, h.inputFile⟩ }
  case sorting => exact { h with sorting := except_bind_eq_ok.2 ⟨next, hnext, h.sorting⟩ }
  case lookups => exact { h with lookups := except_bind_eq_ok.2 ⟨next, hnext, h.lookups⟩ }
  case workload => exact { h with workload := except_bind_eq_ok.2 ⟨next, hnext, h.workload⟩ }
  case batchSize => exact { h with batchSize := except_bind_eq_ok.2 ⟨next, hnext, h.batchSize⟩ }
  case minBenchMillis =>
    exact { h with minBenchMillis := except_bind_eq_ok.2 ⟨next, hnext, h.minBenchMillis⟩ }
  case columns =>
    have hparts := eachMore_ok commaParts a.columns hnext
    exact { h with columns := except_bind_eq_ok.2 ⟨_, hparts, h.columns⟩ }
  case stripeSizes =>
    have hparts := eachMore_ok commaParts a.stripeSizes hnext
    exact { h with stripeSizes := except_bind_eq_ok.2 ⟨_, hparts, h.stripeSizes⟩ }
  case testCases =>
    have hparts := eachMore_ok commaParts a.testCases hnext
    exact { h with testCases := except_bind_eq_ok.2 ⟨_, hparts, h.testCases⟩ }
  case index =>
    have hitems : [value].mapM (readIndex .index) = .ok [next] :=
      mapM_singleton_eq_ok_iff.2 ⟨next, hnext, rfl⟩
    have hmore := eachMore_ok (fun value => [value]) a.indexes hitems
    exact { h with indexes := except_bind_eq_ok.2 ⟨_, hmore, h.indexes⟩ }

/-- Uses can be made one after the other exactly if every argument becomes what it is in the end. -/
theorem foldlM_use_iff : uses.foldlM Arguments.use a = .ok a' ↔ Becomes uses a a' := by
  induction uses generalizing a with
  | nil =>
    rw [becomes_nil_iff]
    exact Except.ok.injEq a a' ▸ Iff.rfl
  | cons use uses ih =>
    rw [List.foldlM_cons, except_bind_eq_ok]
    constructor
    · rintro ⟨b, huse, hrest⟩
      exact (ih.1 hrest).cons huse
    · intro h
      obtain ⟨b, huse, hrest⟩ := h.uncons
      exact ⟨b, huse, ih.2 hrest⟩

/-- From no arguments, uses make what they give. -/
theorem becomes_empty_iff : Becomes uses {} a ↔ GivenBy uses a := by
  have hlist {α : Type} {read : RawText → Except UsageFault α} {parts : RawText → List RawText}
      {values : List RawText} {results : List α} :
      values.foldlM (eachMore parts read) [] = .ok results ↔
        (values.flatMap parts).mapM read = .ok results := by
    rw [foldlM_eachMore_iff]
    simp
  have hindexes : (valuesOf .index uses).foldlM (eachMore (fun value => [value])
      (readIndex .index)) [] = .ok a.indexes ↔
        (valuesOf .index uses).mapM (readIndex .index) = .ok a.indexes := by
    rw [hlist, List.flatMap_singleton']
  constructor
  · intro h
    exact {
      config := foldlM_onceMore_iff.1 h.config
      rows := foldlM_onceMore_iff.1 h.rows
      uniqueValues := foldlM_onceMore_iff.1 h.uniqueValues
      inputFile := foldlM_onceMore_iff.1 h.inputFile
      columns := hlist.1 h.columns
      sorting := foldlM_onceMore_iff.1 h.sorting
      stripeSizes := hlist.1 h.stripeSizes
      indexes := hindexes.1 h.indexes
      testCases := hlist.1 h.testCases
      lookups := foldlM_onceMore_iff.1 h.lookups
      workload := foldlM_onceMore_iff.1 h.workload
      benchmarks := h.benchmarks
      batchSize := foldlM_onceMore_iff.1 h.batchSize
      minBenchMillis := foldlM_onceMore_iff.1 h.minBenchMillis }
  · intro h
    exact {
      config := foldlM_onceMore_iff.2 h.config
      rows := foldlM_onceMore_iff.2 h.rows
      uniqueValues := foldlM_onceMore_iff.2 h.uniqueValues
      inputFile := foldlM_onceMore_iff.2 h.inputFile
      columns := hlist.2 h.columns
      sorting := foldlM_onceMore_iff.2 h.sorting
      stripeSizes := hlist.2 h.stripeSizes
      indexes := hindexes.2 h.indexes
      testCases := hlist.2 h.testCases
      lookups := foldlM_onceMore_iff.2 h.lookups
      workload := foldlM_onceMore_iff.2 h.workload
      benchmarks := h.benchmarks
      batchSize := foldlM_onceMore_iff.2 h.batchSize
      minBenchMillis := foldlM_onceMore_iff.2 h.minBenchMillis }

/-- The command lines that are accepted, and what they give: their words spell uses of flags, every
argument is what the values of its flag are read as, and an input file comes with columns. -/
theorem parse_eq_ok_iff {words : List RawText} : parse words = .ok a ↔
    ∃ uses, Spells words uses ∧ GivenBy uses a ∧ (a.inputFile.isSome → a.columns ≠ []) := by
  have hcomplete : a.checkComplete = .ok () ↔ (a.inputFile.isSome → a.columns ≠ []) := by
    rw [checkComplete]
    split <;> simp_all
  simp only [← becomes_empty_iff, ← foldlM_use_iff]
  constructor
  · intro h
    obtain ⟨b, hrun, hnext⟩ := except_bind_eq_ok.1 h
    obtain ⟨⟨⟩, hcheck, hb⟩ := except_bind_eq_ok.1 hnext
    obtain rfl := Except.ok.inj hb
    obtain ⟨uses, hspells, huses⟩ := Reading.exists_spells hrun
    exact ⟨uses, hspells, huses, hcomplete.1 hcheck⟩
  · rintro ⟨uses, hspells, huses, hcheck⟩
    refine except_bind_eq_ok.2 ⟨a, Reading.run_of_spells hspells huses, ?_⟩
    exact except_bind_eq_ok.2 ⟨(), hcomplete.2 hcheck, rfl⟩

end Arguments

end CommandLine

end StripePruning
