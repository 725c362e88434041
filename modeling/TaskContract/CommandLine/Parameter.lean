import TaskContract.Files.Tree
import TaskContract.Text.WordCharacter

/-!
# Parameters

The options and arguments of a command, the kinds of values that they take, and what may be wrong
with a value.
-/

namespace TaskContract.CommandLine

inductive ValueKind where
  | flag
  | text
  /-- A whole number, one at least. -/
  | count
  /-- A path where there is no directory. -/
  | file
  /-- A path where there is no file, and if it must exist, where there is something. -/
  | directory (mustExist : Bool)
  deriving DecidableEq

inductive Value where
  | flag
  | text (t : Text)
  | count (n : Nat)
  | path (p : Path)

inductive ValueProblem where
  | notANumber (t : Text)
  | tooSmall (n : Int)
  | isADirectory (path : Text)
  | isAFile (path : Text)
  | absent (path : Text)
  deriving DecidableEq

def ValueProblem.message : ValueProblem → Text
  | notANumber t => t.quoted ++ Text.ofString " is not a valid integer range."
  | tooSmall n => Text.ofInt n ++ Text.ofString " is not in the range x>=1."
  | isADirectory p => Text.ofString "File " ++ p.quoted ++ Text.ofString " is a directory."
  | isAFile p => Text.ofString "Directory " ++ p.quoted ++ Text.ofString " is a file."
  | absent p => Text.ofString "Directory " ++ p.quoted ++ Text.ofString " does not exist."

/-- Why a value is not taken: there is a problem with it, or it is a path that cannot be asked
for. -/
inductive ValueError where
  | problem (p : ValueProblem)
  | file (e : FileError)

namespace ValueKind

/-- A path, if what is there is right for it. -/
def path (files : FileTree) (written : Text) (isRight : FileTree.Found → Bool)
    (wrong : ValueProblem) (absent : Option ValueProblem) : Except ValueError Value :=
  let path := Path.ofText written
  let missing : Except ValueError Value :=
    match absent with
    | some problem => .error (.problem problem)
    | none => .ok (.path path)
  match files.locateWritten written with
  | .ok (.missing _) => missing
  | .ok found => if isRight found then .ok (.path path) else .error (.problem wrong)
  | .error e => if e.system?.isSome then missing else .error (.file { fault := e, path })

def value (files : FileTree) (written : Text) : ValueKind → Except ValueError Value
  | .flag => .ok .flag
  | .text => .ok (.text written)
  | .count =>
    match written.wholeNumber? with
    | some n => if 1 ≤ n then .ok (.count n.toNat) else .error (.problem (.tooSmall n))
    | none => .error (.problem (.notANumber written))
  | .file =>
    let isFile : FileTree.Found → Bool
      | .directory _ => false
      | _ => true
    path files written isFile (.isADirectory written) none
  | .directory mustExist =>
    let isDirectory : FileTree.Found → Bool
      | .file _ _ => false
      | _ => true
    path files written isDirectory (.isAFile written)
      (if mustExist then some (.absent written) else none)

def placeholder : ValueKind → String
  | .flag => ""
  | .text => "TEXT"
  | .count => "INTEGER RANGE"
  | .file => "FILE"
  | .directory _ => "DIRECTORY"

end ValueKind

/-- An option, which has names, or an argument, which has a place. An argument must be given. -/
structure Parameter where
  name : String
  /-- The letter of an option's short name. -/
  letter : Option Char := none
  isArgument : Bool := false
  kind : ValueKind
  isRequired : Bool := false
  standard : Option String := none
  description : String := ""
  deriving DecidableEq

namespace Parameter

def names (p : Parameter) : List String :=
  if p.isArgument then [p.name]
  else ("--" ++ p.name) :: (p.letter.map fun c => String.ofList ['-', c]).toList

def label (p : Parameter) : Text :=
  Text.join (Text.ofString " / ") (p.names.map fun n => (Text.ofString n).quoted)

def takesValue (p : Parameter) : Bool :=
  p.kind ≠ .flag

/-- The option that every command has. -/
def help : Parameter where
  name := "help"
  kind := .flag
  description := "Show this message and exit."

end Parameter

end TaskContract.CommandLine
