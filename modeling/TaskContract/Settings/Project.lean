import TaskContract.Settings.Configuration
import TaskContract.Files.Tree
import TaskContract.Yaml.Document

/-!
# Projects

A project is the nearest directory, from where the program is started upwards, that holds the file
`pipedash.yaml`; that file configures it.
-/

namespace TaskContract

inductive ConfigurationError where
  | malformed (path : Path)
  | notAMapping (path : Path)
  | invalid (path : Path) (faults : List PlacedFault)
  /-- A scalar of the file has no value. -/
  | scalar (f : Yaml.ScalarFault)
  | file (e : FileError)
  deriving DecidableEq

def ConfigurationError.message : ConfigurationError → Text
  | malformed p => Text.ofString "Invalid YAML in " ++ p.text
  | notAMapping p => p.text ++ Text.ofString " must contain a mapping"
  | invalid p _ => Text.ofString "Invalid configuration in " ++ p.text ++ Text.ofString ":"
  | scalar f => f.message
  | file e => e.message

namespace Project

def fileName : Text := Text.ofString "pipedash.yaml"

/-- The configuration in the text of a file. A text that stands for nothing configures nothing. -/
def parse (path : Path) (text : Text) : Except ConfigurationError Configuration :=
  match Yaml.read text with
  | .error .malformed => .error (.malformed path)
  | .error (.scalar f) => .error (.scalar f)
  | .ok v =>
    let v := if v.isTruthy then v else .map []
    match v with
    | .map pairs =>
      match Configuration.check (.map pairs) with
      | .ok c => .ok c
      | .error faults => .error (.invalid path faults)
    | _ => .error (.notAMapping path)

def load (files : FileTree) (path : Path) : Except ConfigurationError Configuration := do
  if ← (files.pathExists path).mapError ConfigurationError.file then
    let text ← (files.read path).mapError ConfigurationError.file
    parse path text
  else return {}

/-- Looks for a project from a directory upwards, through at most `depth` directories. -/
def findFrom (files : FileTree) : (depth : Nat) → Path → Except FileError (Option Path)
  | 0, _ => .ok none
  | depth + 1, p => do
    if ← files.pathExists (p / fileName) then return some p
    if p.parts.isEmpty then return none
    findFrom files depth p.parent

def find (files : FileTree) (start : Path) : Except FileError (Option Path) :=
  let p := files.resolve start
  findFrom files (p.parts.length + 1) p

end Project

end TaskContract
