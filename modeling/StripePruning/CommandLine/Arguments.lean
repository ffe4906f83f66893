import StripePruning.Settings.Document

/-!
# Arguments of the command line

What the flags of a command line ask for, and how a value given to a flag is
read.  Values are bytes; all but paths have to be text.  `Arguments.toSettings`
puts what was asked for in the place of the settings of a file or of the
defaults.
-/

namespace StripePruning

namespace CommandLine

/-- Why a command line is not carried out. -/
inductive UsageFault where
  | unknownArgument (argument : String)
  /-- A flag without its value, or a path that is empty. -/
  | missingValue (flag : String)
  /-- A value that its flag cannot read. -/
  | unreadableValue (flag value : String)
  /-- A value that is not text, for a flag that needs one. -/
  | valueNotText (flag : String)
  /-- A flag that is given twice and can only be given once. -/
  | repeatedFlag (flag : String)
  /-- A flag that is left out although another one needs it. -/
  | missingFlag (flag : String)
  /-- A value attached to a flag that takes none. -/
  | surplusValue (flag : String)
  /-- The user asked for help instead. -/
  | helpRequested
  /-- The user asked for the version instead. -/
  | versionRequested
deriving DecidableEq

/-- The text of a fault; there is none for a request. -/
def UsageFault.message : UsageFault → String
  | .unknownArgument argument => s!"unexpected argument '{argument}'"
  | .missingValue flag => s!"a value is required for '--{flag}'"
  | .unreadableValue flag value => s!"invalid value '{value}' for '--{flag}'"
  | .valueNotText flag => s!"invalid UTF-8 in the value for '--{flag}'"
  | .repeatedFlag flag => s!"'--{flag}' cannot be used several times"
  | .missingFlag flag => s!"'--{flag}' is required"
  | .surplusValue flag => s!"'--{flag}' takes no value"
  | .helpRequested => ""
  | .versionRequested => ""

/-- The flags that take a value. -/
inductive ValueFlag where
  | config
  | rows
  | uniqueValues
  | inputFile
  | columns
  | sorting
  | stripeSizes
  | index
  | testCases
  | lookups
  | workload
  | batchSize
  | minBenchMillis
deriving DecidableEq

/-- The flags without a value. -/
inductive Switch where
  | benchmarks
  | help
  | version
deriving DecidableEq

/-- The name of a flag, without the dashes before it. -/
def ValueFlag.name : ValueFlag → String
  | .config => "config"
  | .rows => "generate-num-values"
  | .uniqueValues => "num-unique-values"
  | .inputFile => "input-csv"
  | .columns => "columns"
  | .sorting => "sorting"
  | .stripeSizes => "stripe-sizes"
  | .index => "index"
  | .testCases => "test-cases"
  | .lookups => "num-lookups"
  | .workload => "workload"
  | .batchSize => "lookup-batch-size"
  | .minBenchMillis => "min-bench-time-ms"

@[inherit_doc ValueFlag.name]
def Switch.name : Switch → String
  | .benchmarks => "lookup-benchmarks"
  | .help => "help"
  | .version => "version"

/-- What the flags ask for.  A list is empty if its flag is not given, and a
flag with a list adds at least one element each time. -/
@[ext]
structure Arguments where
  config : Option RawText := none
  rows : Option Nat := none
  uniqueValues : Option Nat := none
  inputFile : Option RawText := none
  columns : List String := []
  sorting : Option String := none
  stripeSizes : List Nat := []
  indexes : List IndexConfig := []
  testCases : List String := []
  lookups : Option Nat := none
  workload : Option RawText := none
  benchmarks : Bool := false
  batchSize : Option Nat := none
  minBenchMillis : Option Nat := none

/-! ## Values of flags -/

/-- The parts of a value between its commas, of which there is at least one. -/
def commaParts (value : RawText) : List RawText :=
  (splitAtEach ','.toUInt8 value.bytes).map RawText.mk

/-- The text that the value of a flag is. -/
def readText (flag : ValueFlag) (value : RawText) : Except UsageFault String :=
  match value.text? with
  | some text => .ok text
  | none => .error (.valueNotText flag.name)

/-- The number that the value of a flag is. -/
def readSize (flag : ValueFlag) (value : RawText) : Except UsageFault Nat := do
  let text ← readText flag value
  match readSize? text.toList with
  | some n => .ok n
  | none => .error (.unreadableValue flag.name text)

/-- The path that the value of a flag is. -/
def readPath (flag : ValueFlag) (value : RawText) : Except UsageFault RawText :=
  if value.bytes.isEmpty then .error (.missingValue flag.name) else .ok value

/-- The index that the value of a flag names. -/
def readIndex (flag : ValueFlag) (value : RawText) : Except UsageFault IndexConfig := do
  let text ← readText flag value
  match IndexConfig.ofText text with
  | .ok config => .ok config
  | .error _ => .error (.unreadableValue flag.name text)

/-- The value of a flag that can be given once, where `before` is what it was
given before. -/
def once {α : Type} (flag : ValueFlag) (before : Option α) (value : Except UsageFault α) :
    Except UsageFault (Option α) :=
  if before.isSome then .error (.repeatedFlag flag.name) else value.map some

namespace Arguments

/-- The arguments with a value given to a flag. -/
def give (a : Arguments) (flag : ValueFlag) (value : RawText) : Except UsageFault Arguments := do
  match flag with
  | .config => return { a with config := ← once flag a.config (readPath flag value) }
  | .rows => return { a with rows := ← once flag a.rows (readSize flag value) }
  | .uniqueValues =>
    return { a with uniqueValues := ← once flag a.uniqueValues (readSize flag value) }
  | .inputFile => return { a with inputFile := ← once flag a.inputFile (readPath flag value) }
  | .columns =>
    return { a with columns := a.columns ++ (← (commaParts value).mapM (readText flag)) }
  | .sorting => return { a with sorting := ← once flag a.sorting (readText flag value) }
  | .stripeSizes =>
    return { a with stripeSizes := a.stripeSizes ++ (← (commaParts value).mapM (readSize flag)) }
  | .index => return { a with indexes := a.indexes ++ [← readIndex flag value] }
  | .testCases =>
    return { a with testCases := a.testCases ++ (← (commaParts value).mapM (readText flag)) }
  | .lookups => return { a with lookups := ← once flag a.lookups (readSize flag value) }
  | .workload => return { a with workload := ← once flag a.workload (readPath flag value) }
  | .batchSize => return { a with batchSize := ← once flag a.batchSize (readSize flag value) }
  | .minBenchMillis =>
    return { a with minBenchMillis := ← once flag a.minBenchMillis (readSize flag value) }

/-- The arguments with a switch turned on.  A request for help or for the version
ends the reading. -/
def turnOn (a : Arguments) (switch : Switch) : Except UsageFault Arguments :=
  match switch with
  | .benchmarks =>
    if a.benchmarks then .error (.repeatedFlag switch.name)
    else .ok { a with benchmarks := true }
  | .help => .error .helpRequested
  | .version => .error .versionRequested

/-- Fails if a flag that another one needs is left out: the columns of an input
file have to be named. -/
def checkComplete (a : Arguments) : Except UsageFault Unit :=
  if a.inputFile.isSome ∧ a.columns.isEmpty then .error (.missingFlag ValueFlag.columns.name)
  else .ok ()

/-! ## Settings -/

/-- A list that is asked for, or else another one. -/
def orElse {α : Type} (asked other : List α) : List α :=
  if asked.isEmpty then other else asked

/-- Settings with what the flags ask for in place of what they were. -/
def override (a : Arguments) (s : Settings) : Settings :=
  { rows := a.rows.getD s.rows
    uniqueValues := a.uniqueValues.getD s.uniqueValues
    datasets := match a.inputFile with
      | some path => [{ path, columns := a.columns }]
      | none => s.datasets
    sorting := a.sorting.getD s.sorting
    stripeSizes := orElse a.stripeSizes s.stripeSizes
    indexes := orElse a.indexes s.indexes
    testCases := orElse a.testCases s.testCases
    lookups := a.lookups.getD s.lookups
    benchmarks := s.benchmarks || a.benchmarks
    batchSize := a.batchSize.getD s.batchSize
    minBenchMillis := a.minBenchMillis.getD s.minBenchMillis
    workload := a.workload <|> s.workload }

/-- The settings that the flags override: those of the file they name, or the
defaults. -/
def baseSettings (files : Files) (a : Arguments) : Except Error Settings :=
  match a.config with
  | some path => Settings.ofFile files path
  | none => .ok {}

/-- The settings that the flags ask for. -/
def toSettings (files : Files) (a : Arguments) : Except Error Settings := do
  return a.override (← a.baseSettings files)

end Arguments

end CommandLine

end StripePruning
