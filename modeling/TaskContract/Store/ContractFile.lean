import TaskContract.Analysis.Contract
import TaskContract.Json.Printer
import TaskContract.Store.Shape
import TaskContract.Store.Timestamp

/-!
# Stored contracts

The contract of a task is stored in the directory `analysis` of its pipeline, stamped with the time
of the analysis.
-/

namespace TaskContract

namespace ContractFile

def rules : List FieldRule :=
  [{ path := [], kind := .object },
   { path := ["taskFilePath"], kind := .string, nonEmpty := true },
   { path := ["stages"], kind := .list },
   { path := ["artifacts"], kind := .object },
   { path := ["artifacts", "reads"], kind := .list },
   { path := ["artifacts", "writes"], kind := .list },
   { path := ["artifacts", "unresolvedReads"], kind := .list, optional := true },
   { path := ["artifacts", "unresolvedWrites"], kind := .list, optional := true },
   { path := ["models"], kind := .list }]

def fault? (data : Json) : Option ShapeFault :=
  FieldRule.firstFault? "analysis_data" data rules

/-- The data with the time of the analysis, in the place of an earlier one. -/
def stamped (now : Timestamp) : Json → Json
  | .obj ms => .obj (Members.insert (Text.ofString "analyzedAt") (.str now.text) ms)
  | v => v

def path (pipeline : Path) (task : Text) : Path :=
  pipeline / "analysis" / (task ++ Text.ofString ".analysis.json")

def storeData (pipeline : Path) (task : Text) (fault? : Option ShapeFault)
    (contract : List Portion) : StoreData where
  fault? := fault?
  files := [(path pipeline task, contract)]

def ofJson (now : Timestamp) (pipeline : Path) (task : Text) (data : Json) : StoreData :=
  storeData pipeline task (fault? data) (stamped now data).filePortions

/-- Stores the contract of a task, whatever kinds of values it is made of. -/
def writeData (files : FileTree) (pipeline : Path) (task : Text) (data : StoreData)
    (disk : Disk := {}) : Except StoreError Path × FileTree :=
  let (result, files) := data.store files (pipeline / "analysis") disk
  (result.map fun _ => path pipeline task, files)

def write (files : FileTree) (now : Timestamp) (pipeline : Path) (task : Text) (data : Json)
    (disk : Disk := {}) : Except StoreError Path × FileTree :=
  writeData files pipeline task (ofJson now pipeline task data) disk

end ContractFile

end TaskContract
