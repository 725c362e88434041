import TaskContract.Pipeline.Gather
import TaskContract.Store.ContractFile
import TaskContract.Store.SchemaFiles

/-!
# Analysis of a pipeline

Every task of a pipeline is analyzed before anything is written. Then, task by task in order, its
contract is stored, its references with computed names are resolved, and the schemas of the JSON
artifacts it writes are deduced and stored. An observer is told of every step, and the first
failure ends the run. The lock is held from the start of a run to its end, however it ends.
-/

namespace TaskContract

def isJsonArtifact (name : Text) : Bool :=
  name.endsWith (Text.ofString ".json")

structure TaskWork where
  task : Text
  file : Path
  code : Text
  contract : Contract

def sourceOf (file : Path) (code : Text) : Script.Source :=
  { chars := code.filterMap CodePoint.toChar?, name := file.text }

def PipelineLocation.readTask (l : PipelineLocation) (files : FileTree) (task : Text) :
    Except Trouble TaskWork :=
  match l.script files task with
  | .error e => .error (.file e)
  | .ok file =>
    match files.read file with
    | .error e => .error (.step (.analysis task (.file e)))
    | .ok code =>
      match analyzeTask (sourceOf file code) with
      | .error e => .error (.step (.analysis task (.analysis e)))
      | .ok contract => .ok { task, file, code, contract }

def contractWork {σ : Type} (c : Conditions σ) (l : PipelineLocation) (w : TaskWork) :
    Except StoreError (List FileOperation) :=
  (ContractFile.ofJson c.now l.configDir w.task (w.contract.toJson (some w.file.text))).work
    (l.configDir / "analysis")

def schemaWork (now : Timestamp) (l : PipelineLocation) (artifact : Text) (d : DeducedSchema) :
    Except StoreError (List FileOperation) :=
  (SchemaFiles.ofJson now l.configDir artifact d.toJson).work
    (SchemaPaths.ofArtifact l.configDir artifact).schema.parent

theorem schemaWork_length {now : Timestamp} {l : PipelineLocation} {artifact : Text}
    {d : DeducedSchema} {ops : List FileOperation} (h : schemaWork now l artifact d = .ok ops) :
    ops.length ≤ 4 := by
  rw [schemaWork, StoreData.work] at h
  split at h
  · cases h
  · obtain rfl := Except.ok.inj h
    exact Nat.le_refl 4

/-- The question what a reference means. It has an answer whatever the reply is. -/
def resolutionJob {σ : Type} (c : Conditions σ) (w : TaskWork) (known : List Text)
    (r : UnresolvedReference) : Job Resolution where
  request := resolutionRequest c.model w.code r known
  conclude reply registry := (.result (.ofReply reply), registry)

section

variable {σ : Type} (c : Conditions σ) (l : PipelineLocation) (w : TaskWork) (total index : Nat)
  (artifact : ArtifactWrite)

def artifactFailure (e : ArtifactError) : Trouble :=
  .step (.artifact w.task artifact.fileName e)

def TaskWork.progress : ArtifactProgress :=
  ⟨w.task, artifact.fileName, index, total⟩

def schemaFiling (d : DeducedSchema) : Filing Unit where
  artifact := artifact.fileName
  work := schemaWork c.now l artifact.fileName d
  few := fun _ h => schemaWork_length h
  failure := fun e => artifactFailure w artifact (.store e)
  closing := .artifactComplete (w.progress total index artifact)
  result := ()

/-- The schema of an artifact of a task is deduced and stored. If the observer fails at its start,
that is a failure of the artifact. -/
def artifactJob : Job Unit where
  opening := some (.artifactStart (w.progress total index artifact))
  refused m := artifactFailure w artifact (.observer m)
  request := deductionRequest c.model w.code artifact
  conclude reply registry :=
    match DeducedSchema.ofReply reply artifact.fileName registry with
    | (.error e, registry) => (.failure (artifactFailure w artifact (.deduction e)), registry)
    | (.ok d, registry) => (.filing (schemaFiling c l w total index artifact d), registry)

def artifactJobs (artifacts : List ArtifactWrite) : List (Job Unit) :=
  artifacts.zipIdx.map fun x => artifactJob c l w total x.2 x.1

end

namespace Run

variable {σ : Type}

/-- Reads and analyzes the script of a task. Nothing but the files decides the outcome. -/
def analyze (l : PipelineLocation) (task : Text) : Run σ TaskWork := do
  match l.readTask (← get).files task with
  | .error e => throw e
  | .ok w => return w

def storeContract (c : Conditions σ) (l : PipelineLocation) (w : TaskWork) : Run σ Unit :=
  match contractWork c l w with
  | .error e => throw (.step (.store w.task e))
  | .ok ops => file c (fun e => .step (.store w.task (.file e))) ops

def adopted (c : Conditions σ) (pairs : List (UnresolvedReference × Resolution)) :
    List ArtifactWrite :=
  pairs.filterMap fun (r, guess) =>
    match guess.fileName with
    | some name =>
      if guess.isAdoptableAt c.settings.confidenceThreshold then some ⟨name, r.stage⟩ else none
    | none => none

def resolveAll (c : Conditions σ) (w : TaskWork) (known : List Text)
    (rs : List UnresolvedReference) : Run σ (List ArtifactWrite) := do
  let guesses ← gather c (rs.map (resolutionJob c w known))
  return adopted c (rs.zip guesses)

/-- All that is done for a task. Gives the number of schemas and the adopted artifacts. -/
def processTask (c : Conditions σ) (l : PipelineLocation) (known : List Text) (total : Nat)
    (w : TaskWork) : Run σ (Nat × List Text × List Text) := do
  storeContract c l w
  let reads ← resolveAll c w known w.contract.unresolvedReads
  let writes ← resolveAll c w known w.contract.unresolvedWrites
  let artifacts := (w.contract.writes ++ writes).filter fun a => isJsonArtifact a.fileName
  let _ ← gather c (artifactJobs c l w total artifacts)
  return (artifacts.length, reads.map (·.fileName), writes.map (·.fileName))

/-- The tasks of a run one after another. Gives the number of schemas. -/
def processTasks (c : Conditions σ) (l : PipelineLocation) (known : List Text)
    (total tasks : Nat) : (index : Nat) → List TaskWork → Run σ Nat
  | _, [] => pure 0
  | index, w :: rest => do
    let p : TaskProgress := ⟨w.task, index, tasks⟩
    emit c (.taskStart p)
    let (count, reads, writes) ← processTask c l known total w
    emit c (.taskComplete p reads writes)
    let others ← processTasks c l known total tasks (index + 1) rest
    return count + others

/-- The names that the tasks write, each once, in the order of their first writes. -/
def knownArtifacts (work : List TaskWork) : List Text :=
  (work.flatMap fun w => w.contract.writes.map (·.fileName)).eraseDups

def artifactCount (work : List TaskWork) : Nat :=
  (work.flatMap fun w => w.contract.writes.filter fun a => isJsonArtifact a.fileName).length

/-- All that is done once every task has been analyzed. -/
def perform (c : Conditions σ) (l : PipelineLocation) (work : List TaskWork) : Run σ Summary := do
  let total := artifactCount work
  emit c (.started l.slug work.length total)
  let artifacts ← processTasks c l (knownArtifacts work) total work.length 0 work
  let summary : Summary := { pipeline := l.slug, tasks := work.length, artifacts }
  emit c (.complete summary)
  return summary

def body (c : Conditions σ) (l : PipelineLocation) : Run σ Summary := do
  match l.tasks (← get).files with
  | .error e => throw (.step (.list e))
  | .ok tasks =>
    let work ← tasks.mapM (analyze l)
    perform c l work

/-- A run whose failure the observer is told of. If that fails too, it is the later failure that
counts. -/
def reported (c : Conditions σ) (l : PipelineLocation) : Run σ Summary := do
  try body c l
  catch e =>
    emit c e.event
    throw e

end Run

inductive RunError where
  | invalidSlug (slug : Text)
  | locked (slug holder : Text)
  | lock (e : LockError)
  | trouble (t : Trouble)

def RunError.message : RunError → Text
  | .invalidSlug slug => Slug.refusal slug.quoted
  | .locked slug holder =>
    Text.ofString "Cannot analyze '" ++ slug ++ Text.ofString "': analysis already running for '"
      ++ holder ++ Text.ofString "'"
  | .lock e => e.message
  | .trouble t => t.message

/-- Does the error say what is wrong with the pipeline or with the lock? -/
def RunError.isExplained : RunError → Bool
  | .locked .. | .trouble (.step _) => true
  | .invalidSlug _ | .lock _ | .trouble _ => false

def analyzePipeline {σ : Type} (c : Conditions σ) (l : PipelineLocation) (w : World σ) :
    Except RunError Summary × World σ :=
  if !Slug.isValid l.slug then (.error (.invalidSlug l.slug), w)
  else
    match w.lock.acquire l.slug with
    | (.error e, _) => (.error (.lock e), w)
    | (.ok (.refused holder), _) => (.error (.locked l.slug holder), w)
    | (.ok .acquired, lock) =>
      let (result, w) := (Run.reported c l).run { w with lock }
      let (released, lock) := w.lock.release l.slug
      let w := { w with lock }
      match released with
      | .error e => (.error (.lock e), w)
      | .ok () => (result.mapError RunError.trouble, w)

end TaskContract
