import RingAgreement.CommandLine.Outcome
import RingAgreement.Keys.MlKem768
/-!
The program: reads the arguments and the files of a task, and does what the task comes to. There
is no network here, so a relay cannot be served or reached.
-/

namespace RingAgreement.CommandLine

def helpText : String :=
  "Ring agreement on a group key, with keys wrapped for clusters\n\n" ++
    "Commands:\n" ++
    "  relay   Serve a ring as its relay\n" ++
    "  keygen  Make a key file\n" ++
    "  roster  Make a roster file from key files, in ring order\n" ++
    "  run     Join a ring, and the ring of the leaders\n" ++
    "  help    Show this text\n"

def versionText : String := "ring-agreement 0.1.0\n"

def refusalText : String := "error: these arguments make no task; try --help\n"

def readFile (path : String) : IO (Option (List UInt8)) := do
  try
    return some (← IO.FS.readBinFile path).data.toList
  catch _ =>
    return none

def carryOut : Effect → IO (Except ServiceError Unit)
  | .write path content => do
    try
      IO.FS.writeFile path content
      return .ok ()
    catch _ =>
      return .error (.config (.unwritable path))
  | effect => return (effect.offline .empty).map fun _ => ()

/-- Says why there is no task. -/
def explainStop : Stop → IO Unit
  | .help => IO.print helpText
  | .version => IO.print versionText
  | .refused => IO.eprint refusalText

def perform (task : Task) : IO UInt32 := do
  let files ← task.inputs.mapM fun path => return (path, ← readFile path)
  let seed : Bytes 32 := .fit 32 (← IO.getRandomBytes 32).data.toList
  let read (path : String) : Option (List UInt8) := (files.lookup path).join
  let result ← match task.effect Kem.mlKem768 read seed with
    | .ok effect => carryOut effect
    | .error e => pure (.error e)
  match result with
  | .ok () => return 0
  | .error e =>
    IO.eprintln e.line
    return 1

end RingAgreement.CommandLine

open RingAgreement.CommandLine in
def main (arguments : List String) : IO UInt32 := do
  match Task.ofArguments arguments with
  | .ok task => perform task
  | .error stop =>
    explainStop stop
    return stop.code
