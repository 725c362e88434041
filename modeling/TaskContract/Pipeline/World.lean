import TaskContract.Analysis.Task
import TaskContract.Inference.Deduction
import TaskContract.Pipeline.Event
import TaskContract.Pipeline.Location
import TaskContract.Pipeline.Lock
import TaskContract.Store.Shape
import TaskContract.Store.Timestamp

/-!
# The world of a run

A run works on files and asks a client, and it tells an observer of its steps. What it tells and
what it does is kept in the order in which it happens. A run can fail at every step, and what it
has done until then stays done.
-/

namespace TaskContract

inductive TaskError where
  | file (e : FileError)
  | analysis (e : AnalysisError)

def TaskError.message : TaskError → Text
  | .file e => e.message
  | .analysis e => e.message

inductive ArtifactError where
  | observer (message : Text)
  | deduction (e : DeductionError)
  | store (e : StoreError)
  deriving DecidableEq

def ArtifactError.message : ArtifactError → Text
  | .observer m => m
  | .deduction e => e.message
  | .store e => e.message

inductive StepError where
  | list (e : TaskListError)
  | analysis (task : Text) (e : TaskError)
  | store (task : Text) (e : StoreError)
  | artifact (task artifact : Text) (e : ArtifactError)

namespace StepError

def message : StepError → Text
  | list e => e.message
  | analysis task e =>
    Text.ofString "Failed to analyze task '" ++ task ++ Text.ofString "': " ++ e.message
  | store task e =>
    Text.ofString "Failed to write analysis for task '" ++ task ++ Text.ofString "': " ++ e.message
  | artifact _ name e =>
    Text.ofString "Failed to deduce schema for artifact '" ++ name ++ Text.ofString "': "
      ++ e.message

def task? : StepError → Option Text
  | list _ => none
  | analysis task _ | store task _ | artifact task _ _ => some task

def artifact? : StepError → Option Text
  | artifact _ name _ => some name
  | _ => none

end StepError

/-- What ends a run early: a step fails, the observer does, or a file cannot be looked for. -/
inductive Trouble where
  | step (e : StepError)
  | observer (message : Text)
  | file (e : FileError)

namespace Trouble

def message : Trouble → Text
  | step e => e.message
  | observer m => m
  | file e => e.message

def event (t : Trouble) : Event :=
  match t with
  | step e => .error e.message e.task? e.artifact?
  | t => .error (Text.ofString "Unexpected error: " ++ t.message) none none

end Trouble

inductive Deed where
  | asked (r : Chat.Request)
  /-- Something is done to the files, to its end or only in part. -/
  | filed (op : FileOperation) (whole : Bool)

/-- What a run works on and leaves behind. The events and the deeds are in reverse. -/
structure World (σ : Type) where
  files : FileTree
  client : σ
  lock : Lock := {}
  registry : Schema.Registry := []
  events : List Event := []
  deeds : List Deed := []
  /-- The number of choices that have been made between steps that were possible. -/
  tick : Nat := 0

/-- What a run is given. The observer may fail on an event, with a message. -/
structure Conditions (σ : Type) where
  client : Chat.Client σ
  settings : AnalysisSettings := {}
  model : Chat.Model := {}
  now : Timestamp
  observer : Event → Option Text := fun _ => none
  disk : Disk := {}
  /-- Which of the steps that are possible side by side comes next, for each choice. -/
  schedule : Nat → Nat := fun _ => 0

namespace World

variable {σ : Type}

def tell (w : World σ) (e : Event) : World σ :=
  { w with events := e :: w.events }

/-- Sends a request. The state of the client moves on at once, whenever the reply is heeded. -/
def ask (w : World σ) (c : Conditions σ) (r : Chat.Request) : Chat.Reply × World σ :=
  let (reply, client) := c.client r w.client
  (reply, { w with client, deeds := .asked r :: w.deeds })

def perform (w : World σ) (c : Conditions σ) (op : FileOperation) :
    Except FileError Unit × World σ :=
  let (result, files) := w.files.perform c.disk op
  (result, { w with files, deeds := .filed op result.isOk :: w.deeds })

end World

/-- A part of a run. What it does before it fails stays done. -/
abbrev Run (σ : Type) := ExceptT Trouble (StateM (World σ))

namespace Run

variable {σ : Type}

def emit (c : Conditions σ) (e : Event) : Run σ Unit := do
  modify (·.tell e)
  match c.observer e with
  | some m => throw (.observer m)
  | none => pure ()

/-- Does things to the files one after another, up to the first that fails. -/
def file (c : Conditions σ) (fail : FileError → Trouble) : List FileOperation → Run σ Unit
  | [] => pure ()
  | op :: rest => fun w =>
    match w.perform c op with
    | (.error e, w) => (.error (fail e), w)
    | (.ok (), w) => file c fail rest w

end Run

end TaskContract
