import TaskContract.Json.Printer
import TaskContract.Json.Reader
import TaskContract.Store.Shape
import TaskContract.Store.Timestamp

/-!
# Stored schemas

The schema of an artifact is stored in three files of the directory `schemas`: the schema itself,
an example, and how it was found. They are named for the artifact without its extension.
-/

namespace TaskContract

structure SchemaPaths where
  schema : Path
  sample : Path
  origin : Path

namespace SchemaPaths

def ofArtifact (pipeline : Path) (artifact : Text) : SchemaPaths :=
  let base := (Path.ofText artifact).stem
  let file (ending : String) : Path := pipeline / "schemas" / (base ++ Text.ofString ending)
  { schema := file ".schema.json", sample := file ".sample.json", origin := file ".meta.json" }

def toList (p : SchemaPaths) : List Path :=
  [p.schema, p.sample, p.origin]

end SchemaPaths

namespace SchemaFiles

def rules : List FieldRule :=
  [{ path := [], kind := .object },
   { path := ["schema"], kind := .object },
   { path := ["example"], kind := .notNull },
   { path := ["reasoning"], kind := .string }]

def fault? (data : Json) : Option ShapeFault :=
  FieldRule.firstFault? "deduced_data" data rules

/-- How a schema was found. -/
def origin (now : Timestamp) (data : Json) : Json :=
  .object [("source", .ofString "llm-deduction"), ("generatedAt", .str now.text),
    ("reasoning", (data.get? "reasoning").getD .null)]

def storeData (pipeline : Path) (artifact : Text) (fault? : Option ShapeFault)
    (schema sample origin : List Portion) : StoreData :=
  let paths := SchemaPaths.ofArtifact pipeline artifact
  { fault?, files := [(paths.schema, schema), (paths.sample, sample), (paths.origin, origin)] }

def ofJson (now : Timestamp) (pipeline : Path) (artifact : Text) (data : Json) : StoreData :=
  storeData pipeline artifact (fault? data) ((data.get? "schema").getD .null).filePortions
    ((data.get? "example").getD .null).filePortions (origin now data).filePortions

/-- Stores what comes with the schema of an artifact, whatever kinds of values it is made of. -/
def writeData (files : FileTree) (pipeline : Path) (artifact : Text) (data : StoreData)
    (disk : Disk := {}) : Except StoreError SchemaPaths × FileTree :=
  let paths := SchemaPaths.ofArtifact pipeline artifact
  let (result, files) := data.store files paths.schema.parent disk
  (result.map fun _ => paths, files)

def write (files : FileTree) (now : Timestamp) (pipeline : Path) (artifact : Text) (data : Json)
    (disk : Disk := {}) : Except StoreError SchemaPaths × FileTree :=
  writeData files pipeline artifact (ofJson now pipeline artifact data) disk

end SchemaFiles

/-- A schema as it was read back. Absent files are null. -/
structure StoredSchema where
  schema : Json
  sample : Json
  origin : Json

inductive LoadError where
  | file (e : FileError)
  | json (e : Json.ReadError)
  deriving DecidableEq

def LoadError.message : LoadError → Text
  | .file e => e.message
  | .json e => e.message

namespace StoredSchema

/-- The value in a file, or null if there is no such file. -/
def readValue (files : FileTree) (p : Path) : Except LoadError Json := do
  if ← (files.pathExists p).mapError LoadError.file then
    let text ← (files.read p).mapError LoadError.file
    (Json.read text).mapError LoadError.json
  else return .null

def load (files : FileTree) (pipeline : Path) (artifact : Text) :
    Except LoadError StoredSchema := do
  let paths := SchemaPaths.ofArtifact pipeline artifact
  let schema ← readValue files paths.schema
  let sample ← readValue files paths.sample
  let origin ← readValue files paths.origin
  return { schema, sample, origin }

def isPresent (s : StoredSchema) : Bool :=
  !s.schema.isNull

def promptPart (artifact : Text) (s : StoredSchema) : Text :=
  Text.join (Text.ofString "\n") [
    Text.ofString "### @" ++ artifact,
    "",
    "**JSON Schema:**",
    "",
    "```json",
    s.schema.prettyAscii,
    "```",
    "",
    "**Sample Data:**",
    "",
    "```json",
    s.sample.prettyAscii,
    "```"]

/-- The section of a prompt on some artifacts. Those without a schema or an example are left out,
and where none is left there is no section. -/
def promptSection (artifacts : List (Text × StoredSchema)) : Text :=
  let usable := artifacts.filter fun (_, s) => s.isPresent && !s.sample.isNull
  if usable.isEmpty then []
  else
    Text.ofString "## Referenced Files\n\n"
      ++ Text.join (Text.ofString "\n\n") (usable.map fun (name, s) => promptPart name s)

end StoredSchema

end TaskContract
