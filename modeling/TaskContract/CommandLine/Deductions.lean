import TaskContract.CommandLine.Console
import TaskContract.Inference.Deduction
import TaskContract.Store.SchemaFiles

/-!
# Deduction of the schemas of a task

The JSON artifacts that a stored contract says its task writes are taken one by one. Each has a
number of attempts, with growing pauses between them, to deduce its schema and to store it. What is
going on is printed.
-/

namespace TaskContract

/-- One of the writes in a stored contract. A stage that is no text is shown as one. -/
def ArtifactWrite.ofJson? (v : Json) : Option ArtifactWrite := do
  let fileName ← (v.get? "fileName").bind Json.str?
  return { fileName, stage := ((v.get? "stage").map Json.asText).getD [] }

def Contract.storedWrites? (contract : Json) : Option (List ArtifactWrite) := do
  let artifacts ← contract.get? "artifacts"
  let writes ← (artifacts.get? "writes").bind Json.arr?
  writes.mapM ArtifactWrite.ofJson?

inductive AttemptError where
  | deduction (e : DeductionError)
  | store (e : StoreError)

def AttemptError.message : AttemptError → Text
  | .deduction e => e.message
  | .store e => e.message

/-- What deductions are made with: a client, how it lets time pass, the model to ask, the code of
the task, the directory to store in, and the number of attempts for each artifact. -/
structure DeductionPlan (σ : Type) where
  client : Chat.Client σ
  pause : Json → σ → σ
  model : Chat.Model
  code : Text
  directory : Path
  attempts : Nat
  now : Timestamp

structure DeductionState (σ : Type) where
  files : FileTree
  client : σ
  registry : Schema.Registry := []
  printed : List Printed := []

namespace DeductionState

variable {σ : Type}

/-- Prints a line of the output that is known to be printable. -/
def say (s : DeductionState σ) (t : Text) : DeductionState σ :=
  { s with printed := s.printed ++ [⟨.output, Console.line t⟩] }

def complain (s : DeductionState σ) (t : Text) : DeductionState σ :=
  { s with printed := s.printed ++ [Console.error t] }

end DeductionState

/-- The number of artifacts with a stored schema and of those without. -/
structure Tally where
  succeeded : Nat := 0
  failed : Nat := 0
  deriving DecidableEq

namespace DeductionPlan

variable {σ : Type}

def attempt (p : DeductionPlan σ) (w : ArtifactWrite) (s : DeductionState σ) :
    Except AttemptError Unit × DeductionState σ :=
  match deduce p.client p.model p.code w s.registry s.client with
  | (.error e, registry, client) => (.error (.deduction e), { s with registry, client })
  | (.ok d, registry, client) =>
    match SchemaFiles.write s.files p.now p.directory w.fileName d.toJson with
    | (.error e, files) => (.error (.store e), { s with files, registry, client })
    | (.ok _, files) => (.ok (), { s with files, registry, client })

/-- The pause after a failed attempt: as many seconds as attempts have failed. -/
def pauseAfter (number : Nat) : Json :=
  .float (Binary64.ofRatio false number 1)

/-- The attempts for an artifact, `left` of them, the first with the given number. Gives the error
of the last one if all fail. -/
def attemptsFrom (p : DeductionPlan σ) (w : ArtifactWrite) :
    (left number : Nat) → DeductionState σ → Option AttemptError × DeductionState σ
  | 0, _, s => (none, s)
  | left + 1, number, s =>
    match p.attempt w s with
    | (.ok (), s) => (none, s.say (Text.ofString "  ✓ Schema deduced and validated"))
    | (.error e, s) =>
      if left = 0 then (some e, s)
      else
        let s := s.say (Text.ofString ("  ⚠ Attempt " ++ number.repr ++ " failed, retrying..."))
        attemptsFrom p w left (number + 1) { s with client := p.pause (pauseAfter number) s.client }

def deduceOne (p : DeductionPlan σ) (w : ArtifactWrite) (t : Tally) (s : DeductionState σ) :
    Tally × DeductionState σ :=
  match p.attemptsFrom w p.attempts 1 s with
  | (none, s) => ({ t with succeeded := t.succeeded + 1 }, s)
  | (some e, s) =>
    ({ t with failed := t.failed + 1 }, s.complain (Text.ofString "  ✗ Failed: " ++ e.message))

/-- The artifacts one after another, after some that are counted. Only a name that cannot be
printed keeps it from its end. -/
def deduceFrom (p : DeductionPlan σ) (total : Nat) :
    (number : Nat) → List ArtifactWrite → Tally → DeductionState σ →
      Except EncodingFault Tally × DeductionState σ
  | _, [], t, s => (.ok t, s)
  | number, w :: rest, t, s =>
    let heading := Text.ofString ("[" ++ number.repr ++ "/" ++ total.repr ++ "] Processing: ")
    match Console.output (heading ++ w.fileName) with
    | .error f => (.error f, s)
    | .ok printed =>
      let (t, s) := p.deduceOne w t { s with printed := s.printed ++ [printed] }
      deduceFrom p total (number + 1) rest t s

def deduceAll (p : DeductionPlan σ) (ws : List ArtifactWrite) (s : DeductionState σ) :
    Except EncodingFault Tally × DeductionState σ :=
  p.deduceFrom ws.length 1 ws {} s

end DeductionPlan

end TaskContract
