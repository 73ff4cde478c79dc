import RingAgreement.CommandLine.Task
/-!
How the command line ends: an exit code and, for a task that failed, a line that shows the error
with its structure. A line whose cause is left out breaks off at the star.
-/

namespace RingAgreement

/-- The message between quotes, broken off behind a star that stands for the cause. -/
def ConfigFault.shown (fault : ConfigFault) : String :=
  match fault with
  | .unreadable _ | .malformed _ | .unwritable _ | .unbindable _ | .keyText _ =>
    String.ofList (Text.quoted fault.message).toList.dropLast
  | _ => Text.quoted fault.message ++ ")"

def TransportFault.shown (fault : TransportFault) : String :=
  match fault with
  | .unreachable _ => String.ofList (Text.quoted fault.message).toList.dropLast
  | _ => Text.quoted fault.message ++ ")"

/-- The line for an error. Of a session's errors only those of a layout reach the command line. -/
def ServiceError.line : ServiceError → String
  | config fault => "Error: Config(" ++ fault.shown
  | transport fault => "Error: Transport(" ++ fault.shown
  | session (.invalidRoster fault) =>
    "Error: Session(InvalidRoster \x7b reason: " ++ Text.quoted fault.reason ++ " \x7d)"
  | session error => "Error: Session(" ++ Text.quoted error.message ++ ")"
  | stopped => "Error: Closed"

namespace CommandLine

def Stop.code : Stop → UInt32
  | help | version => 0
  | refused => 2

structure Outcome where
  code : UInt32
  error : Option String
  directory : Directory

/-- Runs the command line in a directory, on a machine that has no network. -/
def run (K : Kem) (seed : Bytes 32) (d : Directory) (arguments : List String) : Outcome :=
  match Task.ofArguments arguments with
  | .error stop => ⟨stop.code, none, d⟩
  | .ok task =>
    match task.effect K d.read? seed >>= (·.offline d) with
    | .ok d => ⟨0, none, d⟩
    | .error e => ⟨1, some e.line, d⟩

end CommandLine

end RingAgreement
