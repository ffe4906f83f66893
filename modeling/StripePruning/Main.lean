import StripePruning.CommandLine.Parse
import StripePruning.Sweep.Run

/-!
# The program

Reads the command line, opens the inputs that the settings name, carries out
the run and prints its lines.  Everything that is decided is decided by the
library; this module only reads and prints.
-/

namespace StripePruning

namespace Program

/-- The code that the operating system gives for a directory. -/
def directoryCode : UInt32 := 21

/-- What a failed reading says about a path. -/
def failedEntry : IO.Error → Except OpenFailure Entry
  | .noFileOrDirectory _ _ _ => .error .notFound
  | .inappropriateType _ code _ =>
    if code = directoryCode then .ok .directory else .error .notDirectory
  | error => .error (.other (toString error))

/-- What opening a path gives. -/
def openPath (path : RawText) : IO (Except OpenFailure Entry) := do
  try
    return .ok (.file (← IO.FS.readBinFile path.display))
  catch error =>
    return failedEntry error

/-- The files at some paths. -/
def openPaths (paths : List RawText) : IO Files := do
  let entries ← paths.mapM fun path => return (path, ← openPath path)
  return { entry := fun path => (entries.lookup path).getD (.error .notFound) }

/-- The paths of the inputs that settings name. -/
def inputsOf (s : Settings) : List RawText :=
  s.datasets.map Dataset.path ++ s.workload.toList

/-- The flags of the program, one to a line. -/
def usage : String :=
  let flags := CommandLine.valueFlags.map CommandLine.ValueFlag.name ++
    CommandLine.switches.map CommandLine.Switch.name
  "\n".intercalate ("Flags:" :: flags.map fun flag => "  --" ++ flag)

/-- The version of the program. -/
def version : String := "0.1.0"

/-- Prints why a command line is not carried out. -/
def reject (fault : CommandLine.UsageFault) : IO UInt32 := do
  match fault with
  | .helpRequested => IO.println usage; return 0
  | .versionRequested => IO.println version; return 0
  | fault => IO.eprintln s!"error: {fault.message}"; return 2

/-- Prints an error. -/
def fail (error : Error) : IO UInt32 := do
  IO.eprintln error.message
  return 1

/-- The stopwatches of the program.  Times are not printed, so on each of them a
millisecond goes by with each pass. -/
def timer : Timer :=
  .uniform (.ticking 1000000)

/-- Carries out a run and prints its lines. -/
def carryOut (s : Settings) : IO UInt32 := do
  let outcome := s.run (← openPaths (inputsOf s)) timer
  outcome.lines.forM fun line => IO.println line
  match outcome.result with
  | .ok _ => return 0
  | .error error => fail error

/-- Carries out a command line. -/
def carryOutWords (words : List String) : IO UInt32 := do
  match CommandLine.Arguments.parse (words.map .ofString) with
  | .error fault => reject fault
  | .ok arguments =>
    match arguments.toSettings (← openPaths arguments.config.toList) with
    | .ok settings => carryOut settings
    | .error error => fail error

end Program

end StripePruning

/-- Runs the program with the words of the command line. -/
def main (words : List String) : IO UInt32 :=
  StripePruning.Program.carryOutWords words
