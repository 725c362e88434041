import TaskContract.Analysis.Artifacts
import TaskContract.Analysis.Models
import TaskContract.Script.Fault

/-!
# Analysis of a task

A task's script is parsed once; then its reads, its writes, its stages and its model calls are read
off the tree, and the first of these that fails decides the outcome.
-/

namespace TaskContract

open Script Analysis

/-- Why a task has no contract. -/
inductive AnalysisError where
  | parse (cause : ParseError)
  | call (cause : CallError)

def outsideStageMessage (call : Text) (location : Location) : Text :=
  call ++ Text.ofString " call found outside an exported function at "
    ++ Text.ofNat location.line ++ Text.ofString ":" ++ Text.ofNat location.column

def AnalysisError.message : AnalysisError → Text
  | .parse e => e.fault.message
  | .call (.outsideStage name location) => outsideStageMessage name location
  | .call (.escape e) => e.message

/-- Does the error say where the script is wrong? An escape beyond all code points does not. -/
def AnalysisError.isExplained : AnalysisError → Bool
  | .parse _ | .call (.outsideStage ..) => true
  | .call (.escape _) => false

def contractOf (s : Source) (root : Node) : Except CallError Contract := do
  let reads ← artifactReads s root
  let writes ← artifactWrites s root
  let models ← modelCalls s root
  return { stages := stages s root
           reads := reads.reads
           writes := writes.writes
           unresolvedReads := reads.unresolved
           unresolvedWrites := writes.unresolved
           models }

def analyzeTask (s : Source) : Except AnalysisError Contract :=
  match parse s with
  | .error e => .error (.parse e)
  | .ok root =>
    match contractOf s root with
    | .error e => .error (.call e)
    | .ok contract => .ok contract

end TaskContract
