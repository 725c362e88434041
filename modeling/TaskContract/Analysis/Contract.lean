import TaskContract.Json.Value
import TaskContract.Script.Source

/-!
# The contract of a task

What the analysis of a task script finds: its stages, the artifacts it reads and writes, and the
model calls it makes; and the form in which this is stored.
-/

namespace TaskContract

open Script (Location)

/-- An exported function of a task script. -/
structure Stage where
  name : Text
  /-- The line of the export, which orders the stages. -/
  order : Nat
  isAsync : Bool

/-- A read of an artifact whose name is written in the script. -/
structure ArtifactRead where
  fileName : Text
  stage : Text
  required : Bool

structure ArtifactWrite where
  fileName : Text
  stage : Text

/-- A read or write whose artifact name is not written in the script. Whether it is required is
known of reads only. -/
structure UnresolvedReference where
  expression : Text
  codeContext : Text
  stage : Text
  location : Location
  required : Option Bool

structure ModelCall where
  provider : Text
  method : Text
  stage : Text

structure Contract where
  stages : List Stage
  reads : List ArtifactRead
  writes : List ArtifactWrite
  unresolvedReads : List UnresolvedReference
  unresolvedWrites : List UnresolvedReference
  models : List ModelCall

namespace Stage

def toJson (s : Stage) : Json :=
  .object [("name", .str s.name), ("order", .ofNat s.order), ("isAsync", .bool s.isAsync)]

end Stage

namespace ArtifactRead

def toJson (r : ArtifactRead) : Json :=
  .object [("fileName", .str r.fileName), ("stage", .str r.stage), ("required", .bool r.required)]

end ArtifactRead

namespace ArtifactWrite

def toJson (w : ArtifactWrite) : Json :=
  .object [("fileName", .str w.fileName), ("stage", .str w.stage)]

end ArtifactWrite

namespace UnresolvedReference

def toJson (u : UnresolvedReference) : Json :=
  .object ([("expression", .str u.expression), ("codeContext", .str u.codeContext),
      ("stage", .str u.stage)]
    ++ (u.required.map fun r => ("required", Json.bool r)).toList
    ++ [("location", .object [("line", .ofNat u.location.line),
      ("column", .ofNat u.location.column)])])

end UnresolvedReference

namespace ModelCall

def toJson (m : ModelCall) : Json :=
  .object [("provider", .str m.provider), ("method", .str m.method), ("stage", .str m.stage)]

end ModelCall

namespace Contract

/-- The stored form, with the path of the task script in front if that is given. -/
def toJson (c : Contract) (taskFilePath : Option Text := none) : Json :=
  .object ((taskFilePath.map fun p => ("taskFilePath", Json.str p)).toList
    ++ [("stages", .arr (c.stages.map Stage.toJson)),
      ("artifacts", .object [("reads", .arr (c.reads.map ArtifactRead.toJson)),
        ("writes", .arr (c.writes.map ArtifactWrite.toJson)),
        ("unresolvedReads", .arr (c.unresolvedReads.map UnresolvedReference.toJson)),
        ("unresolvedWrites", .arr (c.unresolvedWrites.map UnresolvedReference.toJson))]),
      ("models", .arr (c.models.map ModelCall.toJson))])

end Contract

end TaskContract
