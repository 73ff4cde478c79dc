import RingAgreement.CommandLine.Arguments
import RingAgreement.Node.Basic
import RingAgreement.Storage.Directory
import RingAgreement.Storage.RosterFile
/-!
The tasks of the command line: making key files and roster files, serving a ring as its relay and
joining rings. A task reads its files first; what it then does to the world is one effect.
-/

namespace RingAgreement.CommandLine

/-- How to join the ring of a cluster, and the ring of the leaders. -/
structure JoinOptions where
  key : String
  clusterRoster : String
  clusterRelay : String
  role : Role
  leaderRoster : Option String
  leaderRelay : Option String
deriving DecidableEq, Repr

inductive Task where
  | relay (address : String)
  | keygen (name out : String)
  | roster (name out : String) (keys : List String)
  | run (options : JoinOptions)
deriving DecidableEq, Repr

namespace Task

def defaultAddress : String := "127.0.0.1:7000"

def logLevel : OptionRule := ⟨"log-level", none, .text, false⟩

def helpInquiry : String × Char × Stop := ("help", 'h', .help)

/-- What may stand before the command. -/
def topGrammar : Grammar :=
  ⟨[logLevel], [helpInquiry, ("version", 'V', .version)], false⟩

def grammarOf (options : List OptionRule) (operands : Bool) : Grammar :=
  ⟨logLevel :: options, [helpInquiry], operands⟩

def nameAndOut : List OptionRule :=
  [⟨"name", some 'n', .text, true⟩, ⟨"out", some 'o', .path, true⟩]

def joinRules : List OptionRule :=
  [⟨"key", none, .path, true⟩, ⟨"cluster-roster", none, .path, true⟩,
    ⟨"cluster-relay", none, .text, true⟩, ⟨"role", none, .role, false⟩,
    ⟨"leader-roster", none, .path, false⟩, ⟨"leader-relay", none, .text, false⟩]

/-- The commands with their grammars and with the task for what was given. -/
def commands : List (String × Grammar × (Given → Task)) :=
  [("relay", grammarOf [⟨"bind", some 'b', .text, false⟩] false,
      fun g => .relay ((g.value? "bind").getD defaultAddress)),
    ("keygen", grammarOf nameAndOut false, fun g => .keygen (g.value "name") (g.value "out")),
    ("roster", grammarOf nameAndOut true,
      fun g => .roster (g.value "name") (g.value "out") g.operands),
    ("run", grammarOf joinRules false, fun g =>
      .run { key := g.value "key"
             clusterRoster := g.value "cluster-roster"
             clusterRelay := g.value "cluster-relay"
             role := (roleNames.lookup (g.value "role")).getD .standalone
             leaderRoster := g.value? "leader-roster"
             leaderRelay := g.value? "leader-relay" })]

/-- The `help` command explains at most one command. -/
def explain : List String → Stop
  | [] => .help
  | [name] => if name = "help" ∨ (commands.lookup name).isSome then .help else .refused
  | _ => .refused

/-- The task that arguments ask for. -/
def ofArguments (arguments : List String) : Except Stop Task := do
  let (_, rest) ← topGrammar.scan .nothing arguments
  match rest with
  | [] => .error .refused
  | "help" :: names => .error (explain names)
  | name :: arguments =>
    match commands.lookup name with
    | none => .error .refused
    | some (grammar, task) => return task (← grammar.read arguments)

/-- The files that a task reads. -/
def inputs : Task → List String
  | relay _ | keygen _ _ => []
  | roster _ _ keys => keys
  | run o => o.key :: o.clusterRoster :: o.leaderRoster.toList

end Task

/-- What a task does when its files are in order. -/
inductive Effect where
  | write (path content : String)
  | serve (address : String)
  | join (node : Node) (clusterRelay : String) (leaderRelay : Option String)

variable (K : Kem) (read : String → Option (List UInt8))

/-- The node that joins rings, and the relays of the rings. -/
def joinEffect (o : JoinOptions) : Except ServiceError Effect := do
  let leader ← match o.leaderRoster, o.leaderRelay with
    | some roster, some relay => pure (some (roster, relay))
    | none, none => pure none
    | _, _ => .error (.config .halfLeaderRing)
  let key ← KeyFile.load o.key (read o.key)
  let pair ← key.keypair
  let placeIn (path : String) : Except ServiceError (Roster × Nat) := do
    (← RosterFile.load path (read path)).place key
  let (cluster, clusterIndex) ← placeIn o.clusterRoster
  let leaderRing ← leader.mapM fun (path, _) => placeIn path
  let node ← (Node.make ⟨cluster, clusterIndex, leaderRing, o.role⟩ pair.secretKey).mapError
    ServiceError.session
  return .join node o.clusterRelay (leader.map (·.2))

/-- The effect of a task, given what the files hold and a fresh seed. -/
def Task.effect (seed : Bytes 32) : Task → Except ServiceError Effect
  | relay address => .ok (.serve address)
  | keygen name out => do return .write out (← KeyFile.generate K name seed).toFile
  | roster name out keys => do
    let keys ← keys.mapM fun path => KeyFile.load path (read path)
    let file := RosterFile.ofKeys name keys
    let _ ← file.toRoster
    return .write out file.toFile
  | run o => joinEffect read o

/-- Carries out an effect in a directory, on a machine that has no network. -/
def Effect.offline (d : Directory) : Effect → Except ServiceError Directory
  | write path content =>
    match d.write? path (Text.utf8 content) with
    | some d => .ok d
    | none => .error (.config (.unwritable path))
  | serve address => .error (.config (.unbindable address))
  | join _ relay _ => .error (.transport (.unreachable relay))

end RingAgreement.CommandLine
