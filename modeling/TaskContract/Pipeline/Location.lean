import TaskContract.Json.Reader
import TaskContract.Settings.Project

/-!
# Where a pipeline is

A pipeline is named by a slug of ASCII letters, digits, hyphens and underscores; one line feed after
these is let pass. The directory of a pipeline holds the list of its tasks, and its task scripts are
in a directory of their own. The configuration may say where these are; otherwise both follow from
the slug.
-/

namespace TaskContract

namespace Slug

def isSlugChar (c : CodePoint) : Bool :=
  c.isAsciiLetter || c.isDigit || c = '_' || c = '-'

def isValid (t : Text) : Bool :=
  let body := t.dropWhile fun c => isSlugChar c
  t.head?.any isSlugChar && (body.isEmpty || body = [CodePoint.ofChar '\n'])

def refusal (shown : Text) : Text :=
  Text.ofString "Invalid slug format " ++ shown
    ++ Text.ofString ": only alphanumeric, hyphens, and underscores allowed"

end Slug

structure PipelineLocation where
  slug : Text
  configDir : Path
  tasksDir : Path

inductive LocationError where
  | invalidSlug (slug : Text)
  | notFound (slug : Text) (expected : Path)
  | file (e : FileError)
  deriving DecidableEq

def LocationError.message : LocationError → Text
  | .invalidSlug slug => Slug.refusal slug.quoted
  | .notFound slug expected =>
    Text.ofString "Pipeline '" ++ slug ++ Text.ofString "' not found (expected " ++ expected.text
      ++ Text.ofString ")"
  | .file e => e.message

inductive TaskListError where
  | file (e : FileError)
  | json (e : Json.ReadError)
  | noList
  deriving DecidableEq

def TaskListError.message : TaskListError → Text
  | .file e => Text.ofString "Failed to read pipeline.json: " ++ e.message
  | .json (.tooManyDigits n) => (Json.ReadError.tooManyDigits n).message
  | .json e => Text.ofString "Failed to read pipeline.json: " ++ e.message
  | .noList => Text.ofString "Invalid pipeline.json: tasks array not found"

namespace PipelineLocation

def expected (c : Configuration) (root : Path) (slug : Text) : PipelineLocation :=
  match c.pipelines.lookup slug with
  | some entry =>
    let configDir := root / entry.configDir
    let tasksDir := (entry.tasksDir.map fun d => root / d).getD (configDir / "tasks")
    { slug, configDir, tasksDir }
  | none =>
    let configDir := root / "pipeline-config" / slug
    { slug, configDir, tasksDir := configDir / "tasks" }

/-- The directories of a pipeline, if its own directory exists. -/
def locate (files : FileTree) (c : Configuration) (root : Path) (slug : Text) :
    Except LocationError PipelineLocation :=
  if !Slug.isValid slug then .error (.invalidSlug slug)
  else
    let l := expected c root slug
    match files.isDirectory l.configDir with
    | .ok true => .ok l
    | .ok false => .error (.notFound slug l.configDir)
    | .error e => .error (.file e)

/-- The file that lists the tasks. -/
def listFile (l : PipelineLocation) : Path :=
  l.configDir / "pipeline.json"

def tasksOf (v : Json) : Option (List Text) := do
  let tasks ← (v.get? "tasks").bind Json.arr?
  tasks.mapM Json.str?

def tasks (l : PipelineLocation) (files : FileTree) : Except TaskListError (List Text) := do
  let text ← (files.read l.listFile).mapError TaskListError.file
  let v ← (Json.read text).mapError TaskListError.json
  match tasksOf v with
  | some ts => return ts
  | none => throw .noList

/-- The script of a task: a file named for it, or else the index of a directory named for it. -/
def script (l : PipelineLocation) (files : FileTree) (task : Text) : Except FileError Path := do
  let flat := l.tasksDir / (task ++ Text.ofString ".js")
  if ← files.pathExists flat then return flat
  let nested := l.tasksDir / task / "index.js"
  if ← files.pathExists nested then return nested
  return flat

end PipelineLocation

end TaskContract
