import RingAgreement.Session.Level
/-!
The arguments of the command line: a command with options and operands, read from left to right.
The first thing that is wrong, or asks for help, ends the reading.
-/

namespace RingAgreement.CommandLine

/-- Why there is no task to do. -/
inductive Stop where
  | help
  | version
  | refused
deriving DecidableEq, Repr

/-- The forms of an argument. -/
inductive Word where
  | separator
  | long (name : String) (value : Option String)
  | short (letter : Char) (rest : List Char)
  | plain (text : String)
deriving DecidableEq, Repr

/-- A long option with the value behind an equals sign, if it has one. -/
def longWord (text : List Char) : Word :=
  match text.dropWhile (· ≠ '=') with
  | [] => .long (String.ofList text) none
  | _ :: value => .long (String.ofList (text.takeWhile (· ≠ '='))) (some (String.ofList value))

/-- The form of an argument. A hyphen alone is plain. -/
def Word.ofArgument (argument : String) : Word :=
  match argument.toList with
  | ['-', '-'] => .separator
  | '-' :: '-' :: text => longWord text
  | '-' :: letter :: rest => .short letter rest
  | _ => .plain argument

/-- What an option can be set to. -/
inductive ValueKind where
  | text
  | path
  | role
deriving DecidableEq, Repr

def roleNames : List (String × Role) :=
  [("standalone", .standalone), ("member", .member), ("leader", .leader)]

def ValueKind.accepts (value : String) : ValueKind → Bool
  | text => true
  | path => !value.isEmpty
  | role => (roleNames.lookup value).isSome

/-- An option that takes a value. -/
structure OptionRule where
  long : String
  short : Option Char
  kind : ValueKind
  required : Bool
deriving DecidableEq, Repr

/-- The options of a command, the options that ask for a text instead, and whether the command
has operands. Operands are paths. -/
structure Grammar where
  options : List OptionRule
  inquiries : List (String × Char × Stop)
  operands : Bool
deriving DecidableEq, Repr

/-- What has been given so far. -/
structure Given where
  values : List (String × String)
  operands : List String
deriving DecidableEq, Repr

namespace Given

def nothing : Given := ⟨[], []⟩

/-- Sets an option, once and to something it accepts. -/
def put (given : Given) (option : OptionRule) (value : String) : Except Stop Given :=
  if (given.values.lookup option.long).isSome ∨ !option.kind.accepts value then .error .refused
  else .ok { given with values := (option.long, value) :: given.values }

/-- Adds operands. -/
def add (given : Given) (operands : List String) : Except Stop Given :=
  if operands.all ValueKind.path.accepts then
    .ok { given with operands := given.operands ++ operands }
  else .error .refused

def value? (given : Given) (long : String) : Option String := given.values.lookup long

def value (given : Given) (long : String) : String := (given.value? long).getD ""

end Given

namespace Grammar

variable (g : Grammar)

/-- What an option in an argument means: a text that is asked for, or an option to set with the
value in the same argument. -/
def meaning : Word → Except Stop (OptionRule × Option String)
  | .long name value =>
    match g.inquiries.lookup name, value with
    | some (_, stop), none => .error stop
    | _, _ =>
      match g.options.find? (·.long = name) with
      | some option => .ok (option, value)
      | none => .error .refused
  | .short letter rest =>
    match g.inquiries.find? (·.2.1 = letter) with
    | some (_, _, stop) => .error stop
    | none =>
      match g.options.find? (·.short = some letter), rest with
      | some option, [] => .ok (option, none)
      | some option, '=' :: value => .ok (option, some (String.ofList value))
      | some option, value => .ok (option, some (String.ofList value))
      | none, _ => .error .refused
  | _ => .error .refused

/-- Reads arguments up to the first that is neither an option nor an operand of the command. -/
def scan (given : Given) : List String → Except Stop (Given × List String)
  | [] => .ok (given, [])
  | argument :: rest =>
    match Word.ofArgument argument with
    | .separator =>
      if g.operands then do return (← given.add rest, []) else .ok (given, argument :: rest)
    | .plain text =>
      if g.operands then do scan (← given.add [text]) rest else .ok (given, argument :: rest)
    | word => do
      match ← g.meaning word, rest with
      | (option, some value), rest => scan (← given.put option value) rest
      | (option, none), value :: rest =>
        match Word.ofArgument value with
        | .plain value => scan (← given.put option value) rest
        | _ => .error .refused
      | (_, none), [] => .error .refused

/-- Reads all arguments of a command. A separator may stand at the end. -/
def read (arguments : List String) : Except Stop Given := do
  let (given, rest) ← g.scan .nothing arguments
  let missing := g.options.any fun option => option.required ∧ (given.value? option.long).isNone
  if rest ∉ [[], ["--"]] ∨ missing ∨ (g.operands ∧ given.operands.isEmpty) then .error .refused
  else return given

end Grammar

end RingAgreement.CommandLine
