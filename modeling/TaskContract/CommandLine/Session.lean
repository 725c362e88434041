import TaskContract.CommandLine.Command
import TaskContract.CommandLine.Console
import TaskContract.Pipeline.Run
import TaskContract.Settings.EnvironmentFile

/-!
# Sessions

A session is one call of the program. It works on its surroundings, prints, and ends with an exit
code or with a fault that nothing is said about.
-/

namespace TaskContract.CommandLine

/-- What the program is called in, and what a call leaves behind for the next one. -/
structure Surroundings where
  files : FileTree
  environment : Chat.Environment
  wire : Chat.Wire
  now : Timestamp

/-- A fault that the program does not explain. -/
inductive Fault where
  | file (e : FileError)
  | analysis (e : AnalysisError)
  | run (e : RunError)
  | load (e : LoadError)
  | setting (f : Yaml.ScalarFault)
  | variable (f : VariableFault)
  /-- Something that is to be printed cannot be. -/
  | output (f : EncodingFault)

def Fault.message : Fault → Text
  | .file e => e.message
  | .analysis e => e.message
  | .run e => e.message
  | .load e => e.message
  | .setting f => f.message
  | .variable f => f.message
  | .output f => f.message

inductive Ending where
  | exit (code : Nat)
  | fault (f : Fault)

/-- The surroundings, and what the session has done so far. The clients are in reverse, each with
the settings that it was made with. -/
structure State extends Surroundings where
  printed : List Printed := []
  logLevel : Option Nat := none
  clients : List ModelSettings := []

/-- A part of a session. What it does before it ends the session stays done. -/
abbrev Session := ExceptT Ending (StateM State)

namespace Session

def say (t : Text) : Session Unit := do
  match Console.output t with
  | .ok line => modify fun s => { s with printed := s.printed ++ [line] }
  | .error f => throw (.fault (.output f))

def complain (t : Text) : Session Unit :=
  modify fun s => { s with printed := s.printed ++ [Console.error t] }

/-- Ends the session with an explanation. -/
def refuse {α : Type} (t : Text) : Session α := do
  complain (Text.ofString "Error: " ++ t)
  throw (.exit 1)

def fault {α : Type} (f : Fault) : Session α :=
  throw (.fault f)

/-- A result, or the end of the session for its error. -/
def unwrap {ε α : Type} (onError : ε → Session α) : Except ε α → Session α
  | .ok v => pure v
  | .error e => onError e

def lookup? (name : String) : Session (Option Text) := do
  return (← get).environment.lookup (Text.ofString name)

def arguments (c : Command) (words : List Text) : Session (Arguments.Values × List Text) := do
  let files := (← get).files
  match Arguments.read files c.parameters c.isGroup words with
  | .ok r => return r
  | .error (.usage f) =>
    complain (c.complaint f)
    throw (.exit 2)
  | .error (.file e) => fault (.file e)
  | .error .help =>
    say c.manual
    throw (.exit 0)

def misuse {α : Type} (c : Command) (f : UsageFault) : Session α := do
  complain (c.complaint f)
  throw (.exit 2)

/-- Reads the words of a command that is no group. -/
def options (c : Command) (words : List Text) : Session Arguments.Values := do
  let (values, rest) ← arguments c words
  if rest.isEmpty then return values else misuse c (.surplus rest)

/-- Reads the words of a group: its own options, one of its commands, and the words for that
command. A name that is none of its commands may be an option after all. -/
def choice (c : Command) (words : List Text) :
    Session (Arguments.Values × String × List Text) := do
  if words.isEmpty then
    complain c.manual
    throw (.exit 2)
  let (values, rest) ← arguments c words
  match rest with
  | [] => misuse c .noCommand
  | name :: after =>
    match c.commands.find? fun known => name = Text.ofString known.1 with
    | some (known, _) => return (values, known, after)
    | none =>
      let _ ← arguments c rest
      let similar := Text.suggestions name (c.commands.map fun known => Text.ofString known.1)
      misuse c (.noSuchCommand name similar)

end Session

namespace Arguments.Values

def has (vs : Arguments.Values) (name : String) : Bool :=
  (vs.lookup name).isSome

def path (vs : Arguments.Values) (name : String) : Path :=
  match vs.lookup name with
  | some (.path p) => p
  | _ => Path.ofText []

def text (vs : Arguments.Values) (name : String) : Text :=
  match vs.lookup name with
  | some (.text t) => t
  | _ => []

def count? (vs : Arguments.Values) (name : String) : Option Nat :=
  match vs.lookup name with
  | some (.count n) => some n
  | _ => none

end Arguments.Values

end TaskContract.CommandLine
