import StripePruning.CommandLine.Arguments

/-!
# Reading a command line

A command line is a list of words, each of them bytes.  A word `--name` is a
flag, and the value of a flag is attached to it with `=` or is the next word.  A
value in a word of its own waits until the next flag or the end before it is
read, so a fault in it shows only if no unknown word comes first.
-/

namespace StripePruning

namespace CommandLine

/-! ## Words -/

/-- A flag by its name. -/
inductive Flag where
  | valued (flag : ValueFlag)
  | bare (switch : Switch)
deriving DecidableEq

/-- All flags that take a value. -/
def valueFlags : List ValueFlag :=
  [.config, .rows, .uniqueValues, .inputFile, .columns, .sorting, .stripeSizes, .index,
   .testCases, .lookups, .workload, .batchSize, .minBenchMillis]

/-- All flags without a value. -/
def switches : List Switch :=
  [.benchmarks, .help, .version]

/-- The flag with a name. -/
def Flag.ofName? (name : RawText) : Option Flag :=
  match valueFlags.find? (.ofString ·.name == name), switches.find? (.ofString ·.name == name) with
  | some flag, _ => some (.valued flag)
  | none, some switch => some (.bare switch)
  | none, none => none

/-- The switch with a short name. -/
def Switch.ofLetter? (letter : UInt8) : Option Switch :=
  if letter = 'h'.toUInt8 then some .help
  else if letter = 'V'.toUInt8 then some .version
  else none

/-- What a word looks like. -/
inductive Word where
  /-- Two dashes: no flags follow. -/
  | endOfFlags
  | long (name : RawText) (value : Option RawText)
  /-- A dash and letters, of which the first one counts. -/
  | short (letter : UInt8)
  | plain (text : RawText)
deriving DecidableEq

/-- The byte of a dash. -/
def dash : UInt8 := '-'.toUInt8

/-- The name of a long flag and the value attached to it. -/
def splitFlag (bytes : List UInt8) : Word :=
  match cutAt? '='.toUInt8 bytes with
  | some (name, value) => .long ⟨name⟩ (some ⟨value⟩)
  | none => .long ⟨bytes⟩ none

/-- The form of a word. -/
def Word.ofRaw (word : RawText) : Word :=
  match word.bytes with
  | first :: second :: rest =>
    if first ≠ dash then .plain word
    else if second ≠ dash then .short second
    else if rest.isEmpty then .endOfFlags
    else splitFlag rest
  | _ => .plain word

/-! ## Reading word by word -/

/-- A flag that waits: for its value, or with its value to be read. -/
inductive Waiting where
  | nothing
  | forValue (flag : ValueFlag)
  | withValue (flag : ValueFlag) (value : RawText)

/-- The flags read so far. -/
structure Reading where
  arguments : Arguments := {}
  waiting : Waiting := .nothing
  /-- Whether flags may follow. -/
  flagsAllowed : Bool := true

namespace Reading

/-- Reads the value that waits. -/
def settle (r : Reading) : Except UsageFault Reading :=
  match r.waiting with
  | .nothing => .ok r
  | .forValue flag => .error (.missingValue flag.name)
  | .withValue flag value => do
    return { r with arguments := ← r.arguments.give flag value, waiting := .nothing }

/-- A switch. -/
def switch (r : Reading) (switch : Switch) : Except UsageFault Reading := do
  let r ← r.settle
  return { r with arguments := ← r.arguments.turnOn switch }

/-- A long flag with the value attached to it. -/
def long (r : Reading) (name : RawText) (value : Option RawText) : Except UsageFault Reading :=
  match Flag.ofName? name, value with
  | none, _ => .error (.unknownArgument name.display)
  | some (.bare switch), none => r.switch switch
  | some (.bare _), some _ => .error (.surplusValue name.display)
  | some (.valued flag), none => do
    return { ← r.settle with waiting := .forValue flag }
  | some (.valued flag), some value => do
    let r ← r.settle
    return { r with arguments := ← r.arguments.give flag value }

/-- Takes one word. -/
def word (r : Reading) (word : RawText) : Except UsageFault Reading :=
  if !r.flagsAllowed then .error (.unknownArgument word.display)
  else
    match Word.ofRaw word, r.waiting with
    | .endOfFlags, _ => .ok { r with flagsAllowed := false }
    | .long name value, _ => r.long name value
    | .short letter, _ =>
      match Switch.ofLetter? letter with
      | some switch => r.switch switch
      | none => .error (.unknownArgument word.display)
    | .plain value, .forValue flag => .ok { r with waiting := .withValue flag value }
    | .plain _, _ => .error (.unknownArgument word.display)

/-- The arguments after all words. -/
def run (r : Reading) (words : List RawText) : Except UsageFault Arguments := do
  let r ← words.foldlM word r
  let r ← r.settle
  return r.arguments

end Reading

/-- The arguments that the words of a command line give. -/
def Arguments.parse (words : List RawText) : Except UsageFault Arguments := do
  let a ← Reading.run {} words
  a.checkComplete
  return a

end CommandLine

end StripePruning
