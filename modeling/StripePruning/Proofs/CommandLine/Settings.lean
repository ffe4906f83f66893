import StripePruning.Proofs.CommandLine.Uses
import StripePruning.Proofs.Settings.Document

/-!
# Flags over a file over defaults

The settings of a run are put together in three layers.  Every setting has a default, a file may
give some of them, and a flag goes before both.

* `GivenBy.fits`: the sizes on a command line are numbers of 64 bits, as those of a file are.
* `override_override`: flags that have been applied change nothing when they are applied again.
* `Source` says where one setting comes from, and `Chosen` where all of them do, in terms of the
  values that the flags are given.
* `parse_toSettings` says this of every command line, and that the settings that come out can be
  written to a file and taken from there, as long as the paths on the command line are texts.
  `parse_toSettings_not_text` is why that is needed.
-/

namespace StripePruning

namespace CommandLine

/-! ## Sizes -/

theorem readSize_lt {flag : ValueFlag} {value : RawText} {n : Nat}
    (h : readSize flag value = .ok n) : n < UInt64.size := by
  obtain ⟨text, -, hread⟩ := except_bind_eq_ok.1 h
  split at hread
  · rename_i found hfound
    obtain rfl := Except.ok.inj hread
    exact readSize?_lt hfound
  · cases hread

/-- A flag that gives a size gives a number of 64 bits. -/
theorem Once.size_lt {flag : ValueFlag} {values : List RawText} {asked : Option Nat}
    (h : Once (readSize flag) values asked) : ∀ n, asked = some n → n < UInt64.size := by
  intro n hn
  cases h with
  | leftOut => cases hn
  | given hread =>
    obtain rfl := Option.some.inj hn
    exact readSize_lt hread

namespace Arguments

/-- The sizes that flags give are numbers of 64 bits. -/
structure Fits (a : Arguments) : Prop where
  rows : ∀ n, a.rows = some n → n < UInt64.size
  uniqueValues : ∀ n, a.uniqueValues = some n → n < UInt64.size
  stripeSizes : ∀ n, n ∈ a.stripeSizes → n < UInt64.size
  lookups : ∀ n, a.lookups = some n → n < UInt64.size
  batchSize : ∀ n, a.batchSize = some n → n < UInt64.size
  minBenchMillis : ∀ n, a.minBenchMillis = some n → n < UInt64.size

variable {a : Arguments} {uses : List Use}

theorem GivenBy.benchmarks_iff (h : GivenBy uses a) : a.benchmarks = true ↔ .benchmarks ∈ uses := by
  rw [← List.count_pos_iff, h.benchmarks]
  cases a.benchmarks <;> simp

theorem GivenBy.fits (h : GivenBy uses a) : a.Fits where
  rows := h.rows.size_lt
  uniqueValues := h.uniqueValues.size_lt
  stripeSizes n hn := by
    obtain ⟨part, -, hread⟩ := exists_of_mem_mapM_ok h.stripeSizes hn
    exact readSize_lt hread
  lookups := h.lookups.size_lt
  batchSize := h.batchSize.size_lt
  minBenchMillis := h.minBenchMillis.size_lt

/-! ## Overriding -/

variable {s : Settings}

/-- Settings that flags override keep their sizes numbers of 64 bits. -/
theorem Fits.override (ha : a.Fits) (hs : s.Fits) : (a.override s).Fits := by
  have hsize {asked : Option Nat} {other : Nat} (hasked : ∀ n, asked = some n → n < UInt64.size)
      (hother : other < UInt64.size) : asked.getD other < UInt64.size := by
    cases asked with
    | none => exact hother
    | some n => exact hasked n rfl
  exact {
    rows := hsize ha.rows hs.rows
    uniqueValues := hsize ha.uniqueValues hs.uniqueValues
    stripeSizes := by
      intro n hn
      have hn' : n ∈ if a.stripeSizes.isEmpty then s.stripeSizes else a.stripeSizes := hn
      split at hn'
      · exact hs.stripeSizes n hn'
      · exact ha.stripeSizes n hn'
    lookups := hsize ha.lookups hs.lookups
    batchSize := hsize ha.batchSize hs.batchSize
    minBenchMillis := hsize ha.minBenchMillis hs.minBenchMillis }

/-- Flags that have been applied change nothing when they are applied again. -/
theorem override_override (a : Arguments) (s : Settings) :
    a.override (a.override s) = a.override s := by
  have hgetD {α : Type} (asked : Option α) (other : α) :
      asked.getD (asked.getD other) = asked.getD other := by
    cases asked <;> rfl
  have hlist {α : Type} (asked other : List α) : orElse asked (orElse asked other)
      = orElse asked other := by
    cases asked <;> rfl
  unfold override
  simp only [hgetD, hlist, Bool.or_assoc, Bool.or_self]
  cases a.inputFile <;> cases a.workload <;> rfl

/-- Without flags the settings stay as they are. -/
theorem override_empty (config : Option RawText) (s : Settings) :
    ({ config } : Arguments).override s = s := by
  show { s with benchmarks := s.benchmarks || false } = s
  rw [Bool.or_false]

/-! ## Where settings come from -/

/-- Where one setting comes from: from the values of its flag if there are any, otherwise from the
file if the file has the member, and otherwise from the default. -/
inductive Source {α : Type} (values : List RawText) (reads : α → Prop)
    (members : List (String × Json)) (key : String) (read : Json → Option α) (default : α) :
    α → Prop
  | flag {value : α} (hgiven : values ≠ []) (hreads : reads value) :
    Source values reads members key read default value
  | file {written : Json} {value : α} (hflag : values = [])
    (hmember : Json.field? members key = some (some written)) (hread : read written = some value) :
    Source values reads members key read default value
  | default (hflag : values = []) (hmember : Json.field? members key = some none) :
    Source values reads members key read default default

/-- The dataset that the flags for an input file and its columns give. -/
inductive InputFile (uses : List Use) : List Dataset → Prop
  | mk {path : RawText} {columns : List String}
    (hpath : Once (readPath .inputFile) (valuesOf .inputFile uses) (some path))
    (hcolumns : Each (readText .columns) (valuesOf .columns uses) columns) (h : columns ≠ []) :
    InputFile uses [{ path, columns }]

/-- Where all settings come from.  The flag for the timed series can only turn them on. -/
structure Chosen (uses : List Use) (members : List (String × Json)) (c : Settings) : Prop where
  rows : Source (valuesOf .rows uses)
    (fun n => Once (readSize .rows) (valuesOf .rows uses) (some n))
    members "generate_num_values" Json.size? ({} : Settings).rows c.rows
  uniqueValues : Source (valuesOf .uniqueValues uses)
    (fun n => Once (readSize .uniqueValues) (valuesOf .uniqueValues uses) (some n))
    members "num_unique_values" Json.size? ({} : Settings).uniqueValues c.uniqueValues
  datasets : Source (valuesOf .inputFile uses) (InputFile uses)
    members "datasets" (Json.list? Dataset.ofJson?) ({} : Settings).datasets c.datasets
  sorting : Source (valuesOf .sorting uses)
    (fun text => Once (readText .sorting) (valuesOf .sorting uses) (some text))
    members "sorting" Json.text? ({} : Settings).sorting c.sorting
  stripeSizes : Source (valuesOf .stripeSizes uses)
    (Each (readSize .stripeSizes) (valuesOf .stripeSizes uses))
    members "stripe_sizes" (Json.list? Json.size?) ({} : Settings).stripeSizes c.stripeSizes
  indexes : Source (valuesOf .index uses)
    (fun indexes => (valuesOf .index uses).mapM (readIndex .index) = .ok indexes)
    members "indexes" (Json.list? Settings.readIndex) ({} : Settings).indexes c.indexes
  testCases : Source (valuesOf .testCases uses)
    (Each (readText .testCases) (valuesOf .testCases uses))
    members "test_cases" (Json.list? Json.text?) ({} : Settings).testCases c.testCases
  lookups : Source (valuesOf .lookups uses)
    (fun n => Once (readSize .lookups) (valuesOf .lookups uses) (some n))
    members "num_lookups" Json.size? ({} : Settings).lookups c.lookups
  benchmarks : ∃ inFile, Source [] (fun _ => False)
    members "lookup_benchmarks" Json.bool? ({} : Settings).benchmarks inFile ∧
      (c.benchmarks = true ↔ inFile = true ∨ .benchmarks ∈ uses)
  batchSize : Source (valuesOf .batchSize uses)
    (fun n => Once (readSize .batchSize) (valuesOf .batchSize uses) (some n))
    members "lookup_batch_size" Json.size? ({} : Settings).batchSize c.batchSize
  minBenchMillis : Source (valuesOf .minBenchMillis uses)
    (fun n => Once (readSize .minBenchMillis) (valuesOf .minBenchMillis uses) (some n))
    members "min_bench_time_ms" Json.size? ({} : Settings).minBenchMillis c.minBenchMillis
  workload : Source (valuesOf .workload uses)
    (Once (readPath .workload) (valuesOf .workload uses))
    members "workload" Settings.nullablePath? ({} : Settings).workload c.workload

/-- What a flag asks for: nothing if it is not given, and otherwise something that it is read as. -/
inductive Asks {α : Type} (values : List RawText) (reads : α → Prop) : Option α → Prop
  | nothing (h : values = []) : Asks values reads none
  | value {x : α} (h : values ≠ []) (hreads : reads x) : Asks values reads (some x)

theorem source_of_memberOr {α : Type} {values : List RawText} {reads : α → Prop}
    {members : List (String × Json)} {key : String} {read : Json → Option α} {default value : α}
    {asked : Option α} (hasked : Asks values reads asked)
    (h : memberOr members key read default = some value) :
    Source values reads members key read default (asked.getD value) := by
  cases hasked with
  | value hgiven hreads => exact .flag hgiven hreads
  | nothing hflag =>
    obtain ⟨found, hmember, hvalue⟩ := Option.bind_eq_some_iff.1 h
    cases found with
    | none =>
      obtain rfl := Option.some.inj hvalue
      exact .default hflag hmember
    | some written => exact .file hflag hmember hvalue

end Arguments

section Asking

variable {α : Type} {read : RawText → Except UsageFault α} {values : List RawText}

theorem Once.eq_none_iff {asked : Option α} (h : Once read values asked) :
    asked = none ↔ values = [] := by
  cases h <;> simp

theorem Once.ne_nil {x : α} (h : Once read values (some x)) : values ≠ [] := by
  simp [← h.eq_none_iff]

theorem Once.asks {asked : Option α} (h : Once read values asked) :
    Arguments.Asks values (fun x => Once read values (some x)) asked := by
  cases asked with
  | none => exact .nothing (h.eq_none_iff.1 rfl)
  | some x => exact .value h.ne_nil h

/-- A path is given as it is. -/
theorem Once.eq_path {flag : ValueFlag} {path : RawText}
    (h : Once (readPath flag) values (some path)) : values = [path] := by
  cases h with
  | given hread =>
    unfold readPath at hread
    split at hread
    · cases hread
    · rw [Except.ok.inj hread]

/-- The one value of the flag for a path is the path. -/
theorem Once.mem_iff {flag : ValueFlag} {asked : Option RawText}
    (h : Once (readPath flag) values asked) {path : RawText} :
    path ∈ values ↔ asked = some path := by
  cases asked with
  | none =>
    rw [h.eq_none_iff.1 rfl]
    simp
  | some given =>
    rw [h.eq_path]
    simp [eq_comm]

/-- A list that is asked for is empty only if its flag is not given. -/
theorem Each.eq_nil_iff {results : List α} (h : Each read values results) :
    results = [] ↔ values = [] := by
  rw [mapM_ok_eq_nil_iff h, List.flatMap_eq_nil_iff]
  constructor
  · intro hparts
    refine List.eq_nil_iff_forall_not_mem.2 fun value hvalue => ?_
    exact splitAtEach_ne_nil _ _ (List.map_eq_nil_iff.1 (hparts value hvalue))
  · intro hvalues value hvalue
    rw [hvalues] at hvalue
    cases hvalue

end Asking

namespace Arguments

/-- A list that a flag gives, if it is given. -/
def listed {α : Type} (asked : List α) : Option (List α) :=
  if asked.isEmpty then none else some asked

theorem orElse_eq_getD {α : Type} (asked other : List α) :
    orElse asked other = (listed asked).getD other := by
  cases asked <;> rfl

theorem asks_listed {α : Type} {values : List RawText} {reads : List α → Prop} {asked : List α}
    (hempty : asked = [] ↔ values = []) (hreads : reads asked) :
    Asks values reads (listed asked) := by
  cases asked with
  | nil => exact .nothing (hempty.1 rfl)
  | cons first rest => exact .value (fun hvalues => List.cons_ne_nil _ _ (hempty.2 hvalues)) hreads

theorem chosen_override {members : List (String × Json)} (h : Settings.Members members s)
    (hgiven : GivenBy uses a) (hcomplete : a.inputFile.isSome → a.columns ≠ []) :
    Chosen uses members (a.override s) where
  rows := source_of_memberOr hgiven.rows.asks h.rows
  uniqueValues := source_of_memberOr hgiven.uniqueValues.asks h.uniqueValues
  datasets := by
    have hdatasets : (a.override s).datasets
        = (a.inputFile.map fun path => [{ path, columns := a.columns }]).getD s.datasets := by
      unfold override
      cases a.inputFile <;> rfl
    rw [hdatasets]
    refine source_of_memberOr ?_ h.datasets
    have hpath := hgiven.inputFile
    cases hfile : a.inputFile with
    | none =>
      rw [hfile] at hpath
      exact .nothing (hpath.eq_none_iff.1 rfl)
    | some path =>
      rw [hfile] at hpath hcomplete
      exact .value hpath.ne_nil ⟨hpath, hgiven.columns, hcomplete rfl⟩
  sorting := source_of_memberOr hgiven.sorting.asks h.sorting
  stripeSizes := by
    show Source _ _ _ _ _ _ (orElse a.stripeSizes s.stripeSizes)
    rw [orElse_eq_getD]
    exact source_of_memberOr (asks_listed hgiven.stripeSizes.eq_nil_iff hgiven.stripeSizes)
      h.stripeSizes
  indexes := by
    show Source _ _ _ _ _ _ (orElse a.indexes s.indexes)
    rw [orElse_eq_getD]
    exact source_of_memberOr (asks_listed (mapM_ok_eq_nil_iff hgiven.indexes) hgiven.indexes)
      h.indexes
  testCases := by
    show Source _ _ _ _ _ _ (orElse a.testCases s.testCases)
    rw [orElse_eq_getD]
    exact source_of_memberOr (asks_listed hgiven.testCases.eq_nil_iff hgiven.testCases) h.testCases
  lookups := source_of_memberOr hgiven.lookups.asks h.lookups
  benchmarks := by
    refine ⟨s.benchmarks, source_of_memberOr (.nothing rfl) h.benchmarks, ?_⟩
    show (s.benchmarks || a.benchmarks) = true ↔ _
    rw [Bool.or_eq_true, hgiven.benchmarks_iff]
  batchSize := source_of_memberOr hgiven.batchSize.asks h.batchSize
  minBenchMillis := source_of_memberOr hgiven.minBenchMillis.asks h.minBenchMillis
  workload := by
    have hworkload : (a.override s).workload = (a.workload.map some).getD s.workload := by
      unfold override
      cases a.workload <;> rfl
    rw [hworkload]
    refine source_of_memberOr ?_ h.workload
    have hpath := hgiven.workload
    cases hfile : a.workload with
    | none =>
      rw [hfile] at hpath
      exact .nothing (hpath.eq_none_iff.1 rfl)
    | some path =>
      rw [hfile] at hpath
      exact .value hpath.ne_nil hpath

/-- Two settings agree but for those whose flags are given. -/
structure AgreeUnlessGiven (uses : List Use) (c s : Settings) : Prop where
  rows : valuesOf .rows uses = [] → c.rows = s.rows
  uniqueValues : valuesOf .uniqueValues uses = [] → c.uniqueValues = s.uniqueValues
  datasets : valuesOf .inputFile uses = [] → c.datasets = s.datasets
  sorting : valuesOf .sorting uses = [] → c.sorting = s.sorting
  stripeSizes : valuesOf .stripeSizes uses = [] → c.stripeSizes = s.stripeSizes
  indexes : valuesOf .index uses = [] → c.indexes = s.indexes
  testCases : valuesOf .testCases uses = [] → c.testCases = s.testCases
  lookups : valuesOf .lookups uses = [] → c.lookups = s.lookups
  benchmarks : .benchmarks ∉ uses → c.benchmarks = s.benchmarks
  batchSize : valuesOf .batchSize uses = [] → c.batchSize = s.batchSize
  minBenchMillis : valuesOf .minBenchMillis uses = [] → c.minBenchMillis = s.minBenchMillis
  workload : valuesOf .workload uses = [] → c.workload = s.workload

theorem agreeUnlessGiven_override (h : GivenBy uses a) (s : Settings) :
    AgreeUnlessGiven uses (a.override s) s where
  rows hvalues := by
    rw [override, h.rows.eq_none_iff.2 hvalues]
    rfl
  uniqueValues hvalues := by
    rw [override, h.uniqueValues.eq_none_iff.2 hvalues]
    rfl
  datasets hvalues := by
    rw [override, h.inputFile.eq_none_iff.2 hvalues]
  sorting hvalues := by
    rw [override, h.sorting.eq_none_iff.2 hvalues]
    rfl
  stripeSizes hvalues := by
    rw [override, h.stripeSizes.eq_nil_iff.2 hvalues]
    rfl
  indexes hvalues := by
    rw [override, (mapM_ok_eq_nil_iff h.indexes).2 hvalues]
    rfl
  testCases hvalues := by
    rw [override, h.testCases.eq_nil_iff.2 hvalues]
    rfl
  lookups hvalues := by
    rw [override, h.lookups.eq_none_iff.2 hvalues]
    rfl
  benchmarks huses := by
    have hoff : a.benchmarks = false :=
      Bool.eq_false_iff.2 fun hon => huses (h.benchmarks_iff.1 hon)
    rw [override, hoff]
    exact Bool.or_false s.benchmarks
  batchSize hvalues := by
    rw [override, h.batchSize.eq_none_iff.2 hvalues]
    rfl
  minBenchMillis hvalues := by
    rw [override, h.minBenchMillis.eq_none_iff.2 hvalues]
    rfl
  workload hvalues := by
    rw [override, h.workload.eq_none_iff.2 hvalues]
    rfl

/-! ## Settings in a file -/

/-- The members in a file. -/
def membersOfFile? (files : Files) (path : RawText) : Option (List (String × Json)) :=
  (((files.read? path).bind String.fromUTF8?).bind Json.ofText?).bind Settings.membersIn?

/-- The members in the file that the flags name.  Without a file there are none. -/
inductive FileMembers (files : Files) (uses : List Use) : List (String × Json) → Prop
  | nowhere (h : valuesOf .config uses = []) : FileMembers files uses []
  | file {path : RawText} {members : List (String × Json)} (h : valuesOf .config uses = [path])
    (hmembers : membersOfFile? files path = some members) : FileMembers files uses members

theorem members_of_ofFile {files : Files} {path : RawText}
    (h : Settings.ofFile files path = .ok s) :
    ∃ members, membersOfFile? files path = some members ∧ Settings.Members members s := by
  unfold Settings.ofFile at h
  split at h
  · rename_i text htext
    unfold Settings.ofDocument at h
    split at h
    · rename_i found hfound
      obtain rfl := Except.ok.inj h
      obtain ⟨value, hvalue, hread⟩ := Option.bind_eq_some_iff.1 hfound
      obtain ⟨members, hmembers, hholds⟩ := Settings.members_of_ofJson? hread
      rw [membersOfFile?, htext, Option.bind_some, hvalue]
      exact ⟨members, hmembers, hholds⟩
    · cases h
  · cases h

theorem members_of_baseSettings {files : Files} (h : GivenBy uses a)
    (hfile : ∀ path, a.config = some path → ∃ s, Settings.ofFile files path = .ok s) :
    ∃ s members, a.baseSettings files = .ok s ∧ FileMembers files uses members ∧
      Settings.Members members s := by
  have hflag := h.config
  rw [baseSettings]
  cases hconfig : a.config with
  | none =>
    rw [hconfig] at hflag
    exact ⟨{}, [], rfl, .nowhere (hflag.eq_none_iff.1 rfl), Settings.members_standard⟩
  | some path =>
    rw [hconfig] at hflag
    obtain ⟨s, hs⟩ := hfile path hconfig
    obtain ⟨members, hmembers, hholds⟩ := members_of_ofFile hs
    exact ⟨s, members, hs, .file hflag.eq_path hmembers, hholds⟩

/-- A document is read from a file that holds it. -/
theorem ofFile_of_toUTF8 {files : Files} {path : RawText} {text : String}
    (hread : files.read? path = some text.toUTF8) :
    Settings.ofFile files path = Settings.ofDocument text := by
  have htext : String.fromUTF8? text.toUTF8 = some text := by
    rw [String.fromUTF8?, Option.dite_none_right_eq_some]
    exact ⟨text.isValidUTF8, rfl⟩
  rw [Settings.ofFile, hread, Option.bind_some, htext]

/-! ## Settings of a command line -/

/-- The paths that flags put into settings are texts. -/
def PathsGivenAreText (uses : List Use) : Prop :=
  ∀ path, path ∈ valuesOf .inputFile uses ∨ path ∈ valuesOf .workload uses → path.IsText

/-- The same flags with the same values, but for the flag of the file, which is given a path. -/
structure NamesFile (path : RawText) (uses uses' : List Use) : Prop where
  config : valuesOf .config uses' = [path]
  others : ∀ flag, flag ≠ .config → valuesOf flag uses' = valuesOf flag uses
  benchmarks : uses'.count .benchmarks = uses.count .benchmarks

/-- Settings are written exactly if the paths that flags put into them are texts, when those of the
file are. -/
theorem pathsAreText_override (h : GivenBy uses a) (hs : s.PathsAreText) :
    (a.override s).PathsAreText ↔ PathsGivenAreText uses := by
  have hdatasets : (∀ d, d ∈ (a.override s).datasets → d.path.IsText) ↔
      ∀ path, path ∈ valuesOf .inputFile uses → path.IsText := by
    simp only [h.inputFile.mem_iff]
    unfold override
    cases a.inputFile with
    | none => exact iff_of_true hs.1 (by simp)
    | some path => simp
  have hworkload : (∀ path, (a.override s).workload = some path → path.IsText) ↔
      ∀ path, path ∈ valuesOf .workload uses → path.IsText := by
    simp only [h.workload.mem_iff]
    unfold override
    cases a.workload with
    | none => exact iff_of_true hs.2 (by simp)
    | some path => simp
  rw [Settings.PathsAreText, hdatasets, hworkload]
  simp [PathsGivenAreText, or_imp, forall_and]

/-- A command line that names another file gives the same arguments but for the file. -/
theorem GivenBy.namesFile (h : GivenBy uses a) {path : RawText} {uses' : List Use}
    (hnames : NamesFile path uses uses') (hpath : path.bytes ≠ []) :
    GivenBy uses' { a with config := some path } := by
  have hread : readPath .config path = .ok path := by
    rw [readPath, if_neg (by simpa using hpath)]
  have hcount := hnames.benchmarks.trans h.benchmarks
  cases h
  constructor
  case config =>
    rw [hnames.config]
    exact .given hread
  case benchmarks => exact hcount
  all_goals
    simp only [hnames.others, ne_eq, reduceCtorEq, not_false_eq_true]
    assumption

/-- A command line whose file can be read gives settings.  Each of them comes from the values of its
flag, or else from the file, or else from the default, and those whose flags are not given are those
of the file alone.  Settings with a path that is not text cannot be written.  Otherwise, if the
probabilities of filters are read as they are written, the settings are read back from their
document, and the same flags give the same settings again if they name a file that holds it. -/
theorem parse_toSettings {words : List RawText} {a : Arguments} {files : Files}
    (hparse : parse words = .ok a)
    (hfile : ∀ path, a.config = some path → ∃ s, Settings.ofFile files path = .ok s) :
    ∃ uses c s members, Spells words uses ∧ a.toSettings files = .ok c ∧
      ({ config := a.config } : Arguments).toSettings files = .ok s ∧
      FileMembers files uses members ∧ Chosen uses members c ∧ AgreeUnlessGiven uses c s ∧
      (¬ PathsGivenAreText uses → c.toDocument = .error .pathNotText) ∧
      (PathsGivenAreText uses →
        (∀ p, .perStripeBloom p ∈ c.indexes → (Json.ofFloat p).float? = some p) →
        ∃ text, c.toDocument = .ok text ∧ Settings.ofDocument text = .ok c ∧
          ∀ path other words' uses', path.bytes ≠ [] →
            Files.read? other path = some text.toUTF8 → Spells words' uses' →
            NamesFile path uses uses' →
            ∃ a', parse words' = .ok a' ∧ a'.toSettings other = .ok c) := by
  obtain ⟨uses, hspells, hgiven, hcomplete⟩ := parse_eq_ok_iff.1 hparse
  obtain ⟨s, members, hbase, hmembers, hholds⟩ := members_of_baseSettings hgiven hfile
  have hsettings : a.toSettings files = .ok (a.override s) := by
    rw [toSettings, hbase]
    rfl
  have halone : ({ config := a.config } : Arguments).toSettings files = .ok s := by
    have hsame : baseSettings files { config := a.config } = a.baseSettings files := rfl
    rw [toSettings, hsame, hbase]
    exact congrArg Except.ok (override_empty a.config s)
  have hpaths := pathsAreText_override hgiven hholds.pathsAreText
  refine ⟨uses, a.override s, s, members, hspells, hsettings, halone, hmembers,
    chosen_override hholds hgiven hcomplete, agreeUnlessGiven_override hgiven s, ?_, ?_⟩
  · intro hnot
    exact Settings.toDocument_eq_error (mt hpaths.1 hnot)
  · intro htexts hindexes
    have hreadable (config : IndexConfig) (hconfig : config ∈ (a.override s).indexes) :
        config.IsReadable := by
      intro p hp
      exact hindexes p (hp ▸ hconfig)
    obtain ⟨text, htext⟩ := Settings.exists_toDocument_iff.2 (hpaths.2 htexts)
    have hdocument := Settings.ofDocument_of_toDocument (hgiven.fits.override hholds.fits)
      hreadable htext
    refine ⟨text, htext, hdocument, fun path other words' uses' hpath hread hspells' hnames => ?_⟩
    refine ⟨{ a with config := some path }, ?_, ?_⟩
    · exact parse_eq_ok_iff.2 ⟨uses', hspells', hgiven.namesFile hnames hpath, hcomplete⟩
    · have hother : baseSettings other { a with config := some path } = .ok (a.override s) := by
        show Settings.ofFile other path = _
        rw [ofFile_of_toUTF8 hread, hdocument]
      rw [toSettings, hother]
      exact congrArg Except.ok (override_override a s)

/-- The probability of the filters among the standard indexes is read as it is written. -/
theorem readable_standard (p : Float) (hp : .perStripeBloom p ∈ IndexConfig.standard) :
    (Json.ofFloat p).float? = some p := by
  simp only [IndexConfig.standard, List.mem_cons, reduceCtorEq, IndexConfig.perStripeBloom.injEq,
    List.not_mem_nil, or_false, false_or] at hp
  rw [hp]
  decide +kernel

/-- A file that gives two settings. -/
def twoSettings : String :=
  "\x7b\"sorting\":\"RANDOM\",\"num_lookups\":9\x7d"

/-- One of the two settings of a file is given by a flag too. -/
theorem parse_toSettings_two_settings :
    let files : Files := { entry := fun _ => .ok (.file twoSettings.toUTF8) }
    let words : List RawText :=
      ["--config", "c.json", "--num-lookups=7", "--stripe-sizes", "2,3", "--lookup-benchmarks"]
    ∃ a c, parse words = .ok a ∧ a.toSettings files = .ok c ∧ c.rows = 100000 ∧
      c.sorting = "RANDOM" ∧ c.lookups = 7 ∧ c.stripeSizes = [2, 3] ∧ c.benchmarks = true ∧
      ∃ text, c.toDocument = .ok text ∧ Settings.ofDocument text = .ok c := by
  intro files words
  have hparse : parse words = .ok
      { config := some "c.json", lookups := some 7, stripeSizes := [2, 3], benchmarks := true } :=
    rfl
  have hdocument : Settings.ofDocument twoSettings
      = .ok { sorting := "RANDOM", lookups := 9 } := rfl
  have hfile (path : RawText) : Settings.ofFile files path
      = .ok { sorting := "RANDOM", lookups := 9 } := by
    rw [ofFile_of_toUTF8 rfl, hdocument]
  obtain ⟨uses, c, s, members, -, hc, -, -, -, -, hnot, hround⟩ :=
    parse_toSettings hparse fun path _ => ⟨_, hfile path⟩
  have hsettings : toSettings files
      { config := some "c.json", lookups := some 7, stripeSizes := [2, 3], benchmarks := true }
        = .ok { sorting := "RANDOM", lookups := 7, stripeSizes := [2, 3], benchmarks := true } := by
    rw [toSettings]
    show (Settings.ofFile files "c.json" >>= _) = _
    rw [hfile]
    rfl
  obtain rfl := Except.ok.inj (hsettings.symm.trans hc)
  -- No path is given but that of the file, which is no setting.
  have htexts : PathsGivenAreText uses := by
    by_contra h
    have hpaths : Settings.PathsAreText
        { sorting := "RANDOM", lookups := 7, stripeSizes := [2, 3], benchmarks := true } :=
      ⟨by simp, by simp⟩
    obtain ⟨text, htext⟩ := Settings.exists_toDocument_iff.2 hpaths
    rw [hnot h] at htext
    cases htext
  obtain ⟨text, htext, hread, -⟩ := hround htexts readable_standard
  exact ⟨_, _, hparse, hsettings, rfl, rfl, rfl, rfl, rfl, text, htext, hread⟩

/-- The path of a workload may be any bytes, but then the settings cannot be written. -/
theorem parse_toSettings_not_text :
    ∃ a c, parse ["--workload", ⟨[0xFF]⟩] = .ok a ∧
      a.toSettings { entry := fun _ => .error .notFound } = .ok c ∧
      (∀ p, .perStripeBloom p ∈ c.indexes → (Json.ofFloat p).float? = some p) ∧
      ∀ text, c.toDocument ≠ .ok text := by
  refine ⟨{ workload := some ⟨[0xFF]⟩ }, _, rfl, rfl, readable_standard, fun text htext => ?_⟩
  obtain ⟨path, hpath⟩ := (Settings.exists_toDocument_iff.1 ⟨text, htext⟩).2 ⟨[0xFF]⟩ rfl
  have hnot : RawText.text? ⟨[0xFF]⟩ = none := by decide
  rw [hpath, RawText.text?_ofString] at hnot
  cases hnot

end Arguments

end CommandLine

end StripePruning
