import TaskContract.Json.Value
import TaskContract.Files.Tree

/-!
# Storing data

Data is checked before anything is written. A fault names the first field that is not what it
should be, what it should be and what it is. Then the directory of the data is made, and its files
are written in place, one after another.
-/

namespace TaskContract

inductive Kind where
  | object
  | list
  | string
  | notNull
  deriving DecidableEq

namespace Kind

def description : Kind → String
  | object => "an object"
  | list => "a list"
  | string => "a string"
  | notNull => "a non-null value"

def admits : Kind → Json → Bool
  | object, .obj _ => true
  | list, .arr _ => true
  | string, .str _ => true
  | notNull, v => !v.isNull
  | _, _ => false

end Kind

/-- A field that is not what it should be. `data` is the name of the whole. -/
structure ShapeFault where
  data : String
  field : String
  expected : Kind
  actual : String
  deriving DecidableEq

namespace ShapeFault

def message (f : ShapeFault) : Text :=
  Text.ofString ("Invalid " ++ f.data ++ "." ++ f.field ++ ": expected "
    ++ f.expected.description ++ " but got " ++ f.actual)

def typeWord : Json → String
  | .null => "None"
  | v => v.typeName

end ShapeFault

/-- A rule for a field: its place, what it holds, and whether it may be absent. -/
structure FieldRule where
  path : List String
  kind : Kind
  /-- May the field be absent? -/
  optional : Bool := false
  /-- Does an empty value count as a wrong one? -/
  nonEmpty : Bool := false

namespace FieldRule

def valueAt (v : Json) : List String → Option Json
  | [] => some v
  | name :: rest => (v.get? name).bind fun w => valueAt w rest

/-- What is wrong with the field of some data. The whole data is named by a word of its own. -/
def fault? (data : String) (v : Json) (r : FieldRule) : Option ShapeFault :=
  let name := if r.path.isEmpty then "<root>" else String.intercalate "." r.path
  match valueAt v r.path with
  | none =>
    if r.optional then none else some ⟨data, name, r.kind, ShapeFault.typeWord .null⟩
  | some w =>
    if r.kind.admits w && (!r.nonEmpty || w.isTruthy) then none
    else some ⟨data, name, r.kind, ShapeFault.typeWord w⟩

def firstFault? (data : String) (v : Json) (rules : List FieldRule) : Option ShapeFault :=
  rules.findSome? (fault? data v)

end FieldRule

inductive StoreError where
  | shape (f : ShapeFault)
  | file (e : FileError)
  deriving DecidableEq

def StoreError.message : StoreError → Text
  | .shape f => f.message
  | .file e => e.message

/-- Data as its store sees it: what is wrong with its shape, or else the portions of its files. -/
structure StoreData where
  fault? : Option ShapeFault
  files : List (Path × List Portion)

namespace StoreData

def work (dir : Path) (data : StoreData) : Except StoreError (List FileOperation) :=
  match data.fault? with
  | some f => .error (.shape f)
  | none => .ok (.makeRoom dir :: data.files.map fun x => .write x.1 x.2)

def store (t : FileTree) (dir : Path) (data : StoreData) (disk : Disk := {}) :
    Except StoreError Unit × FileTree :=
  match data.work dir with
  | .error e => (.error e, t)
  | .ok operations =>
    let (result, t) := t.performAll disk operations
    (result.mapError StoreError.file, t)

end StoreData

end TaskContract
