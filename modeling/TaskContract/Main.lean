import Std.Time.DateTime.Timestamp
import TaskContract.CommandLine.Program

/-!
# The command line

Reads from the disk what a call of the program may need, makes the call, and carries out what it
leaves behind. There is no transport for requests here, so each of them fails.
-/

namespace TaskContract.CommandLine

/-- A text in characters. Surrogates are left out. -/
def shown (t : Text) : String :=
  String.ofList (t.filterMap CodePoint.toChar?)

def placeOf (path : String) : List Text :=
  (Path.ofText (Text.ofString path)).parts

def pathOf (place : List Text) : String :=
  shown (Path.text { root := Text.ofString "/", parts := place })

/-- The entries at a path and below it. What cannot be read as text is left out. -/
def entriesFrom : (depth : Nat) → String → IO (List (List Text × Entry))
  | 0, _ => return []
  | depth + 1, path => do
    try
      let real ← IO.FS.realPath path
      if ← real.isDir then
        let below ← (← real.readDir).toList.mapM fun e =>
          entriesFrom depth (path ++ "/" ++ e.fileName)
        return (placeOf path, .directory) :: below.flatten
      else return [(placeOf path, .file (Text.ofString (← IO.FS.readFile real)))]
    catch _ => return []

/-- The entries that a call concerned with an existing path may need: those at the path, the
directories above it, and the project that it belongs to. -/
def entriesAround (path : String) : IO (List (List Text × Entry)) := do
  let place := placeOf path
  let mut entries ← entriesFrom 64 path
  for length in List.range place.length do
    let above := place.take length
    let isProject ← try
        let _ ← IO.FS.realPath (pathOf (above ++ [Project.fileName]))
        pure true
      catch _ => pure false
    entries := entries ++ (← if isProject then entriesFrom 64 (pathOf above)
      else pure [(above, .directory)])
  return entries

/-- The tree that a call with some words may need: what is around the current directory and around
every path that a word holds. -/
def treeFor (words : List String) : IO FileTree := do
  let current := (← IO.currentDir).toString
  let held := words.flatMap fun w => [w, (w.drop 2).toString, ((w.splitOn "=").getLast?).getD ""]
  let mut entries ← entriesAround current
  for path in held.eraseDups do
    try entries := entries ++ (← entriesAround (← IO.FS.realPath path).toString)
    catch _ => pure ()
  return { entries, current := placeOf current }

/-- The variables that a call may ask for: its own, and those in the environment files of a
tree. -/
def environmentFor (t : FileTree) : IO Chat.Environment := do
  let keys := Chat.Providers.standard.map fun (_, p) => p.keyVariable
  let own := ["PIPEDASH_LOG_LEVEL", "PIPEDASH_DEBUG"].map Text.ofString
  let inFiles := t.entries.flatMap fun (place, e) =>
    match e with
    | .file text =>
      if place.getLast? = some (Text.ofString ".env") then EnvironmentFile.names text else []
    | .directory => []
  let values ← (keys ++ own ++ inFiles).eraseDups.mapM fun name => do
    return (← IO.getEnv (shown name)).map fun v => (name, Text.ofString v)
  return values.filterMap id

def isIn (t : FileTree) (place : List Text) (e : Entry) : Bool :=
  match e, t.entry? place with
  | .directory, some .directory => true
  | .file text, some (.file before) => text = before
  | _, _ => false

/-- Writes what a tree has beyond an earlier one, the oldest first. -/
def store (before after : FileTree) : IO Unit := do
  for (place, e) in after.entries.reverse do
    if !isIn before place e then
      match e with
      | .directory => IO.FS.createDirAll (pathOf place)
      | .file text => IO.FS.writeFile (pathOf place) (shown text)

def now : IO Timestamp := do
  let time ← Std.Time.Timestamp.now
  return .ofSeconds time.val.second.val.toNat (time.val.nano.val.toNat / 1000)

end TaskContract.CommandLine

open TaskContract CommandLine in
def main (words : List String) : IO UInt32 := do
  let files ← treeFor words
  let wire : Chat.Wire :=
    { pending := [], otherwise := .transportFault (Text.ofString "no transport available") }
  let before : Surroundings :=
    { files, environment := ← environmentFor files, wire, now := ← now }
  let (outcome, after) := run (words.map Text.ofString) before
  for p in outcome.printed do
    match p.stream with
    | .output => IO.print (shown p.text)
    | .errors => IO.eprint (shown p.text)
  if let some f := outcome.fault then IO.eprintln (shown f.message)
  store before.files after.files
  return outcome.exit.toUInt32
