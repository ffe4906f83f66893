import StripePruning.Json.Basic
import StripePruning.Settings.Basic

/-!
# Settings as JSON

Settings are written as an object with one member for each setting.  When they
are read, members may come in any order and may be left out, but none may be
repeated or unknown; an array with the settings in their order is read as well.
A dataset may have further members, of any form.  An index is an object with the
name of its family, or an array that starts with the name.  Paths are written as
texts, so settings with a path that is not text cannot be written.
-/

namespace StripePruning

/-! ## Members -/

/-- The value of a member read by `read`, or a default if it is left out. -/
def memberOr {α : Type} (members : List (String × Json)) (key : String) (read : Json → Option α)
    (default : α) : Option α := do
  match ← Json.field? members key with
  | some value => read value
  | none => some default

/-- The value of a member that must be there. -/
def memberOf {α : Type} (members : List (String × Json)) (key : String)
    (read : Json → Option α) : Option α := do
  read (← (← Json.field? members key))

/-! ## Indexes -/

namespace IndexConfig

/-- A family with the value of its parameter, if there is one. -/
def ofFamily? (family : String) (probability : Option Json) : Option IndexConfig :=
  match family, probability with
  | "zone_map", _ => some .zoneMap
  | "per_value_bitmap", _ => some .perValueBitmap
  | "per_stripe_bloom", none => some (.perStripeBloom standardProbability)
  | "per_stripe_bloom", some value => value.float?.map .perStripeBloom
  | _, _ => none

/-- Whether a family has a parameter. -/
def hasParameter (family : String) : Bool :=
  family == "per_stripe_bloom"

/-- The configuration with some members. -/
def ofMembers? (members : List (String × Json)) : Option IndexConfig := do
  let family ← memberOf members "family" Json.text?
  let probability ← if hasParameter family then Json.field? members "fpp" else some none
  ofFamily? family probability

/-- The configuration that a value inside `depth` allowed containers describes.
The value is read strictly, whatever else it holds. -/
def ofJson? (depth : Nat) (value : Json) : Option IndexConfig :=
  if !value.isStrict depth then none
  else
    match value with
    | .array [family] => do ofFamily? (← family.text?) none
    | .array [family, probability] => do
      let family ← family.text?
      if hasParameter family then ofFamily? family (some probability) else none
    | value => do ofMembers? (← value.members?)

/-- A configuration as a value. -/
def toJson (config : IndexConfig) : Json :=
  let family := ("family", Json.ofString config.family)
  match config with
  | .perStripeBloom probability => .ofMembers [family, ("fpp", .ofFloat probability)]
  | _ => .ofMembers [family]

/-- The configuration that a text describes. -/
def ofDocument (text : String) : Except Error IndexConfig :=
  match (Json.ofText? text).bind (ofJson? Json.nestingLimit) with
  | some config => .ok config
  | none => .error .malformedConfig

end IndexConfig

/-! ## Paths -/

namespace RawText

/-- The path that a value describes. -/
def ofJson? (value : Json) : Option RawText :=
  value.text?.map ofString

/-- A path as a value, if it is text. -/
def toJson (path : RawText) : Except Error Json :=
  match path.text? with
  | some text => .ok (.ofString text)
  | none => .error .pathNotText

end RawText

/-! ## Datasets -/

namespace Dataset

/-- The dataset that a value describes. -/
def ofJson? : Json → Option Dataset
  | .array [path, columns] => do
    return { path := ← RawText.ofJson? path, columns := ← columns.list? Json.text? }
  | value => do
    let members ← value.members?
    return { path := ← memberOf members "path" RawText.ofJson?
             columns := ← memberOf members "columns" (Json.list? Json.text?) }

/-- A dataset as a value. -/
def toJson (d : Dataset) : Except Error Json := do
  return .ofMembers [("path", ← d.path.toJson), ("columns", .ofStrings d.columns)]

end Dataset

/-! ## Settings -/

namespace Settings

/-- The path that a value describes, none for null. -/
def nullablePath? : Json → Option (Option RawText)
  | .null => some none
  | value => (RawText.ofJson? value).map some

/-- Settings as a list of members, with those that hold paths already written. -/
def membersWith (s : Settings) (datasets workload : Json) : List (String × Json) :=
  [("generate_num_values", .ofNat s.rows),
   ("num_unique_values", .ofNat s.uniqueValues),
   ("datasets", datasets),
   ("sorting", .ofString s.sorting),
   ("stripe_sizes", .array (s.stripeSizes.map Json.ofNat)),
   ("indexes", .array (s.indexes.map IndexConfig.toJson)),
   ("test_cases", .ofStrings s.testCases),
   ("num_lookups", .ofNat s.lookups),
   ("lookup_benchmarks", .bool s.benchmarks),
   ("lookup_batch_size", .ofNat s.batchSize),
   ("min_bench_time_ms", .ofNat s.minBenchMillis),
   ("workload", workload)]

/-- The names of the settings in their order. -/
def memberNames : List String :=
  (membersWith {} .null .null).map (·.1)

/-- The containers around an index in settings: the settings and the list of
the indexes. -/
def depthOfIndexes : Nat := 2

/-- The settings with some members. -/
def ofMembers? (members : List (String × Json)) : Option Settings := do
  let standard : Settings := {}
  if members.any fun (name, _) => !memberNames.contains name then none
  else
    return {
      rows := ← memberOr members "generate_num_values" Json.size? standard.rows
      uniqueValues := ← memberOr members "num_unique_values" Json.size? standard.uniqueValues
      datasets := ← memberOr members "datasets" (Json.list? Dataset.ofJson?) standard.datasets
      sorting := ← memberOr members "sorting" Json.text? standard.sorting
      stripeSizes := ← memberOr members "stripe_sizes" (Json.list? Json.size?) standard.stripeSizes
      indexes := ← memberOr members "indexes"
        (Json.list? (IndexConfig.ofJson? (Json.nestingLimit - depthOfIndexes))) standard.indexes
      testCases := ← memberOr members "test_cases" (Json.list? Json.text?) standard.testCases
      lookups := ← memberOr members "num_lookups" Json.size? standard.lookups
      benchmarks := ← memberOr members "lookup_benchmarks" Json.bool? standard.benchmarks
      batchSize := ← memberOr members "lookup_batch_size" Json.size? standard.batchSize
      minBenchMillis := ← memberOr members "min_bench_time_ms" Json.size? standard.minBenchMillis
      workload := ← memberOr members "workload" nullablePath? standard.workload }

/-- The settings that a value describes. -/
def ofJson? : Json → Option Settings
  | .array items =>
    if items.length ≤ memberNames.length then ofMembers? (memberNames.zip items) else none
  | value => do ofMembers? (← value.members?)

/-- The workload as a value, null if there is none. -/
def workloadJson (s : Settings) : Except Error Json :=
  match s.workload with
  | some path => path.toJson
  | none => .ok .null

/-- Settings as a value. -/
def toJson (s : Settings) : Except Error Json := do
  let datasets ← s.datasets.mapM Dataset.toJson
  let workload ← s.workloadJson
  return .ofMembers (s.membersWith (.array datasets) workload)

/-- Settings as text. -/
def toDocument (s : Settings) : Except Error String := do
  return (← s.toJson).text

/-- The settings that a text describes. -/
def ofDocument (text : String) : Except Error Settings :=
  match (Json.ofText? text).bind ofJson? with
  | some settings => .ok settings
  | none => .error .malformedConfig

/-- The settings in a file. -/
def ofFile (files : Files) (path : RawText) : Except Error Settings :=
  match (files.read? path).bind String.fromUTF8? with
  | some text => ofDocument text
  | none => .error .unreadableInput

end Settings

end StripePruning
