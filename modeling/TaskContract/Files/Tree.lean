import TaskContract.Files.Name
import TaskContract.Files.Path
import TaskContract.Text.Encoding
import TaskContract.Text.Lines
import TaskContract.Text.Printable

/-!
# File trees

The directories and text files that the program sees, as a map from places to entries. Every
operation walks from directory to directory, and the first step that fails decides the error.
-/

namespace TaskContract

structure SystemFault where
  number : Nat
  words : String
  deriving DecidableEq

inductive FileFault where
  | notFound
  | exists
  | notADirectory
  | isADirectory
  | nameTooLong
  /-- The path holds a NUL. -/
  | embeddedNull
  /-- The path has no bytes, or the text no UTF-8 form. -/
  | unencodable (e : EncodingFault)
  /-- What is asked for is possible, but the system does not do it. -/
  | device (f : SystemFault)
  /-- The system has taken only a part of what was written. -/
  | stopped (f : SystemFault)
  /-- There is no text for a part of what was to be written. -/
  | refused (message : Text)
  deriving DecidableEq

namespace FileFault

/-- The report of the system on a path, if that is where the fault comes from. -/
def system? : FileFault → Option SystemFault
  | notFound => some ⟨2, "No such file or directory"⟩
  | FileFault.exists => some ⟨17, "File exists"⟩
  | notADirectory => some ⟨20, "Not a directory"⟩
  | isADirectory => some ⟨21, "Is a directory"⟩
  | nameTooLong => some ⟨36, "File name too long"⟩
  | device f => some f
  | embeddedNull | unencodable _ | stopped _ | refused _ => none

def meansAbsence : FileFault → Bool
  | notFound | notADirectory | embeddedNull | unencodable _ => true
  | FileFault.exists | isADirectory | nameTooLong | device _ | stopped _ | refused _ => false

end FileFault

structure FileError where
  fault : FileFault
  path : Path
  deriving DecidableEq

def SystemFault.message (f : SystemFault) : Text :=
  Text.ofString ("[Errno " ++ f.number.repr ++ "] " ++ f.words)

def FileError.message (e : FileError) : Text :=
  match e.fault.system?, e.fault with
  | some f, _ => f.message ++ Text.ofString ": " ++ e.path.text.quoted
  | none, .unencodable f => f.message
  | none, .stopped f => f.message
  | none, .refused m => m
  | none, _ => Text.ofString "embedded null byte"

inductive FileOperation where
  /-- Makes a directory with those above it. -/
  | makeRoom (dir : Path)
  | write (file : Path) (portions : List Portion)

/-- What the system does not do although the tree allows it. By the places: the directories that
are not made, the files that are not opened, and those of which only a beginning is kept. -/
structure Disk where
  making : List Text → Option SystemFault := fun _ => none
  opening : List Text → Option SystemFault := fun _ => none
  taking : List Text → Text → Option (SystemFault × Nat) := fun _ _ => none

inductive Entry where
  | directory
  | file (text : Text)

/-- The entries by their places, and the place of the current directory. The root is a directory
without an entry. -/
structure FileTree where
  entries : List (List Text × Entry)
  current : List Text

namespace FileTree

def entry? (t : FileTree) (place : List Text) : Option Entry :=
  if place = [] then some .directory else t.entries.lookup place

def insert (t : FileTree) (place : List Text) (e : Entry) : FileTree :=
  { t with entries := (place, e) :: t.entries.filter fun x => x.1 ≠ place }

def erase (t : FileTree) (place : List Text) : FileTree :=
  { t with entries := t.entries.filter fun x => x.1 ≠ place }

inductive Found where
  | directory (place : List Text)
  | file (place : List Text) (text : Text)
  /-- Nothing, in a directory that exists. -/
  | missing (place : List Text)

def nameLimit : Nat := 255

/-- The number of bytes from which a path is too long. -/
def pathLimit : Nat := 4096

def step (t : FileTree) (place : List Text) (name : Text) : Except FileFault Found :=
  if name.isEmpty || name = Text.ofString "." then .ok (.directory place)
  else if name = Text.ofString ".." then .ok (.directory place.dropLast)
  else if nameLimit < (FileName.bytes name).length then .error .nameTooLong
  else
    let place := place ++ [FileName.kept name]
    match t.entry? place with
    | some .directory => .ok (.directory place)
    | some (.file text) => .ok (.file place text)
    | none => .ok (.missing place)

def walk (t : FileTree) : Found → List Text → Except FileFault Found
  | found, [] => .ok found
  | .directory place, name :: rest =>
    match t.step place name with
    | .ok found => walk t found rest
    | .error e => .error e
  | .file _ _, _ :: _ => .error .notADirectory
  | .missing _, _ :: _ => .error .notFound

/-- What keeps the text of a path from being looked up at all. -/
def textFault? (text : Text) : Option FileFault :=
  match Encoding.fileName.fault? text with
  | some f => some (.unencodable f)
  | none =>
    if text.contains (CodePoint.ofNat 0) then some .embeddedNull
    else if pathLimit ≤ (FileName.bytes text).length then some .nameTooLong
    else none

/-- What is at a path with the given text, which is walked along the given names. -/
def locateAlong (t : FileTree) (text : Text) (names : List Text) : Except FileFault Found :=
  match textFault? text with
  | some e => .error e
  | none =>
    t.walk (.directory (if text.startsWith (Text.ofString "/") then [] else t.current)) names

def locate (t : FileTree) (p : Path) : Except FileFault Found :=
  t.locateAlong p.text p.parts

/-- What is at a path exactly as it is written. Here an empty path leads nowhere, and a slash or a
dot at the end asks for a directory. -/
def locateWritten (t : FileTree) (written : Text) : Except FileFault Found :=
  if written.isEmpty then .error .notFound
  else t.locateAlong written (Text.splitOn '/' written)

def fail {α : Type} (p : Path) (fault : FileFault) : Except FileError α :=
  .error { fault, path := p }

/-- A test of what is at a path, false if nothing can be there. -/
def test (t : FileTree) (p : Path) (f : Found → Bool) : Except FileError Bool :=
  match t.locate p with
  | .ok found => .ok (f found)
  | .error e => if e.meansAbsence then .ok false else fail p e

def pathExists (t : FileTree) (p : Path) : Except FileError Bool :=
  t.test p fun
    | .missing _ => false
    | _ => true

def isDirectory (t : FileTree) (p : Path) : Except FileError Bool :=
  t.test p fun
    | .directory _ => true
    | _ => false

/-- The text of the file at a path, with its line ends unified. -/
def read (t : FileTree) (p : Path) : Except FileError Text :=
  match t.locate p with
  | .ok (.file _ text) => .ok text.unifyLineEnds
  | .ok (.directory _) => fail p .isADirectory
  | .ok (.missing _) => fail p .notFound
  | .error e => fail p e

/-- The text of the portions before the first one that cannot be written, and why that one cannot. -/
def writable : List Portion → Text × Option FileFault
  | [] => ([], none)
  | .error m :: _ => ([], some (.refused m))
  | .ok piece :: rest =>
    match Encoding.utf8.fault? piece with
    | some f => ([], some (.unencodable f))
    | none =>
      let (text, fault) := writable rest
      (piece ++ text, fault)

/-- Puts a file at a place and writes it portion by portion. An earlier file is emptied first, and a
portion that cannot be written ends the new one. -/
def put (t : FileTree) (p : Path) (place : List Text) (portions : List Portion) (disk : Disk := {}) :
    Except FileError Unit × FileTree :=
  match disk.opening place with
  | some f => (fail p (.device f), t)
  | none =>
    let (text, fault) := writable portions
    match disk.taking place text with
    | some (f, length) => (fail p (.stopped f), t.insert place (.file (text.take length)))
    | none =>
      (match fault with
        | none => .ok ()
        | some f => fail p f, t.insert place (.file text))

def write (t : FileTree) (p : Path) (portions : List Portion) (disk : Disk := {}) :
    Except FileError Unit × FileTree :=
  match t.locate p with
  | .ok (.file place _) | .ok (.missing place) => t.put p place portions disk
  | .ok (.directory _) => (fail p .isADirectory, t)
  | .error e => (fail p e, t)

def makeDirectory (t : FileTree) (p : Path) (disk : Disk := {}) : Except FileFault FileTree :=
  match t.locate p with
  | .ok (.missing place) =>
    match disk.making place with
    | some f => .error (.device f)
    | none => .ok (t.insert place .directory)
  | .ok _ => .error .exists
  | .error e => .error e

/-- What a failure to make a directory comes to: nothing if the directory is there. -/
def unlessPresent (t : FileTree) (p : Path) (e : FileFault) : Except FileError Unit × FileTree :=
  match e.system? with
  | none => (fail p e, t)
  | some _ =>
    match t.isDirectory p with
    | .ok true => (.ok (), t)
    | .ok false => (fail p e, t)
    | .error e => (.error e, t)

/-- Makes a directory with all those above it, at most `depth` of them, unless it is there. -/
def makeDirectoriesTo (t : FileTree) (disk : Disk) :
    (depth : Nat) → Path → Except FileError Unit × FileTree
  | 0, p =>
    match t.makeDirectory p disk with
    | .ok t => (.ok (), t)
    | .error e => if e = .notFound then (fail p e, t) else t.unlessPresent p e
  | depth + 1, p =>
    match t.makeDirectory p disk with
    | .ok t => (.ok (), t)
    | .error e =>
      if e = .notFound then
        match t.makeDirectoriesTo disk depth p.parent with
        | (.error e, t) => (.error e, t)
        | (.ok (), t) =>
          match t.makeDirectory p disk with
          | .ok t => (.ok (), t)
          | .error e => if e = .notFound then (fail p e, t) else t.unlessPresent p e
      else t.unlessPresent p e

def makeDirectories (t : FileTree) (p : Path) (disk : Disk := {}) :
    Except FileError Unit × FileTree :=
  t.makeDirectoriesTo disk p.parts.length p

def perform (t : FileTree) (disk : Disk) : FileOperation → Except FileError Unit × FileTree
  | .makeRoom dir => t.makeDirectories dir disk
  | .write file portions => t.write file portions disk

/-- Does things one after another, up to the first that fails. -/
def performAll (t : FileTree) (disk : Disk) :
    List FileOperation → Except FileError Unit × FileTree
  | [] => (.ok (), t)
  | op :: rest =>
    match t.perform disk op with
    | (.error e, t) => (.error e, t)
    | (.ok (), t) => performAll t disk rest

/-- The absolute path that a path stands for, with its double dots resolved. -/
def resolve (t : FileTree) (p : Path) : Path where
  root := Text.ofString "/"
  parts := p.parts.foldl
    (fun place name => if name = Text.ofString ".." then place.dropLast else place ++ [name])
    (if p.root.isEmpty then t.current else [])

end FileTree

end TaskContract
