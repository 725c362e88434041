import TaskContract.CommandLine.Deductions
import TaskContract.CommandLine.Session

/-!
# The program

Every call first finds the project it is about, reads its configuration and adds the variables of
its environment file; then the command does its work. `run` is one call.
-/

namespace TaskContract.CommandLine

structure ProjectContext where
  directory : Path
  configuration : Configuration

/-! ## Preparation -/

def logLevels : List (Text × Nat) :=
  [("CRITICAL", 50), ("FATAL", 50), ("ERROR", 40), ("WARNING", 30), ("WARN", 30), ("INFO", 20),
   ("DEBUG", 10), ("NOTSET", 0)].map fun (name, level) => (Text.ofString name, level)

/-- The capital of a letter, if it is an ASCII capital: a small ASCII letter has one, and so have
the dotless i and the long s. -/
def asciiCapital (c : CodePoint) : CodePoint :=
  if c.isBetween 'a' 'z' then CodePoint.ofNat (c.val - 32)
  else if c.val = 0x131 then 'I'
  else if c.val = 0x17F then 'S'
  else c

/-- The level of the log by the name of one. A name that is none stands for warnings. -/
def logLevelOf (name : Option Text) : Nat :=
  (name.bind fun n => logLevels.lookup (n.map asciiCapital)).getD 30

namespace Session

def refuseConfiguration {α : Type} : ConfigurationError → Session α
  | .scalar f => fault (.setting f)
  | .file e => fault (.file e)
  | .invalid p faults =>
    refuse (Text.join (Text.ofString "\n")
      ((ConfigurationError.invalid p faults).message :: faults.map PlacedFault.text))
  | e => refuse e.message

def addVariables (directory : Path) : Session Unit := do
  let s ← get
  match s.files.read (directory / ".env") with
  | .error _ => pure ()
  | .ok text =>
    let (result, environment) := EnvironmentFile.load s.environment text
    set { s with environment }
    unwrap (fun f => fault (.variable f)) result

def prepare (options : Arguments.Values) : Session ProjectContext := do
  let name ← lookup? "PIPEDASH_LOG_LEVEL"
  let level := if options.has "verbose" then 10 else logLevelOf name
  modify fun s => { s with logLevel := some level }
  let files := (← get).files
  let start := options.path "project"
  let found ← unwrap (fun e => fault (.file e)) (Project.find files start)
  let directory := found.getD (files.resolve start)
  let configuration ← unwrap refuseConfiguration
    (Project.load files (directory / Project.fileName))
  addVariables directory
  return { directory, configuration }

def connect (p : ProjectContext) : Session Chat.Settings := do
  let settings := p.configuration.model
  modify fun s => { s with clients := settings :: s.clients }
  return { environment := (← get).environment, maxRetries := settings.maxRetries }

def modelOf (p : ProjectContext) : Chat.Model :=
  { provider := p.configuration.model.provider, name := p.configuration.model.model }

def locate (p : ProjectContext) (slug : Text) : Session PipelineLocation := do
  let files := (← get).files
  match PipelineLocation.locate files p.configuration p.directory slug with
  | .ok l => return l
  | .error (.file e) => fault (.file e)
  | .error e => refuse e.message

/-! ## The commands -/

/-- The text of a file that the analysis of a task or a contract needs. -/
def readFile (p : Path) (onError : FileError → Session Text) : Session Text := do
  unwrap onError ((← get).files.read p)

def analyzeTask (options : Arguments.Values) : Session Unit := do
  let path := options.path "TASK_PATH"
  let code ← readFile path fun e =>
    if e.fault = .notFound then refuse (Text.ofString "Task file not found: " ++ path.text)
    else fault (.file e)
  let source : Script.Source :=
    { chars := code.filterMap CodePoint.toChar?, name := ((← get).files.resolve path).text }
  match TaskContract.analyzeTask source with
  | .ok contract => say contract.toJson.prettyAscii
  | .error e =>
    let isDebugging := (← lookup? "PIPEDASH_DEBUG") = some (Text.ofString "1")
    if e.isExplained && !isDebugging then
      refuse (Text.ofString "Error analyzing task:\n" ++ e.message)
    else fault (.analysis e)

def eventLines : Event → List Text
  | .started pipeline tasks artifacts =>
    [Text.ofString "Analyzing pipeline '" ++ pipeline
      ++ Text.ofString ("': " ++ tasks.repr ++ " tasks, " ++ artifacts.repr ++ " JSON artifacts")]
  | .taskStart p =>
    [Text.ofString ("[" ++ (p.index + 1).repr ++ "/" ++ p.total.repr ++ "] ") ++ p.task]
  | .artifactComplete p => [Text.ofString "  ✓ " ++ p.artifact]
  | .taskComplete _ reads writes =>
    (reads.map fun name => Text.ofString "  ← " ++ name ++ Text.ofString " (resolved read)")
      ++ writes.map fun name => Text.ofString "  → " ++ name ++ Text.ofString " (resolved write)"
  | .artifactStart _ | .complete _ | .error .. => []

def analyzePipeline (p : ProjectContext) (options : Arguments.Values) : Session Unit := do
  let l ← locate p (options.text "SLUG")
  let settings := p.configuration.analysis
  let settings := { settings with
    concurrency := ((options.count? "concurrency").map Int.ofNat).getD settings.concurrency }
  let chat ← connect p
  let s ← get
  let conditions : Conditions Chat.Wire :=
    { client := Chat.Client.overWire chat, settings, model := modelOf p, now := s.now
      observer := fun e => (Console.outputs (eventLines e)).2.map EncodingFault.message }
  let world : World Chat.Wire := { files := s.files, client := s.wire }
  let (result, w) := TaskContract.analyzePipeline conditions l world
  let printed := w.events.reverse.flatMap fun e => (Console.outputs (eventLines e)).1
  set { s with files := w.files, wire := w.client, printed := s.printed ++ printed }
  match result with
  | .ok summary =>
    say (Text.ofString ("\nDone: " ++ summary.tasks.repr ++ " tasks, " ++ summary.artifacts.repr
      ++ " schemas (" ++ summary.milliseconds.repr ++ "ms)"))
  | .error e => if e.isExplained then refuse e.message else fault (.run e)

/-- Deduces the schemas of the JSON artifacts in a stored contract. -/
def deduceSchemas (p : ProjectContext) (options : Arguments.Values) : Session Unit := do
  let contractPath := options.path "analysis"
  let unreadable (what : String) (path : Path) (details : Text) : Session Text :=
    refuse (Text.ofString ("Cannot read " ++ what ++ " file: ") ++ path.text
      ++ Text.ofString "\nDetails: " ++ details)
  let stored ← readFile contractPath fun e => unreadable "analysis" contractPath e.message
  let contract ← match Json.read stored with
    | .ok v => pure v
    | .error (.tooManyDigits n) => fault (.load (.json (.tooManyDigits n)))
    | .error e =>
      let _ ← unreadable "analysis" contractPath e.message
      pure Json.null
  let some writes := Contract.storedWrites? contract
    | refuse (Text.ofString "Invalid analysis format. Expected 'artifacts.writes' array.")
  let taskPath := options.path "task"
  let code ← readFile taskPath fun e => unreadable "task" taskPath e.message
  let directory := options.path "output"
  let s ← get
  let (made, files) := s.files.makeDirectories directory
  set { s with files }
  unwrap (fun e => refuse (Text.ofString "Cannot create output directory: " ++ directory.text
    ++ Text.ofString "\nDetails: " ++ e.message)) made
  let (artifacts, others) := writes.partition fun w => isJsonArtifact w.fileName
  say (Text.ofString ("Found " ++ artifacts.length.repr ++ " JSON artifacts to process\n"))
  say (Text.ofString "Task file: " ++ taskPath.text)
  say (Text.ofString "Output directory: " ++ directory.text ++ Text.ofString "\n")
  let chat ← connect p
  let s ← get
  let plan : DeductionPlan Chat.Wire :=
    { client := Chat.Client.overWire chat, pause := fun delay w => w.wait delay
      model := modelOf p, code, directory, now := s.now
      attempts := (options.count? "retries").getD p.configuration.analysis.schemaRetries.toNat }
  let (result, d) := plan.deduceAll artifacts { files := s.files, client := s.wire }
  set { s with files := d.files, wire := d.client, printed := s.printed ++ d.printed }
  let tally ← unwrap (fun f => fault (.output f)) result
  if !others.isEmpty then
    say (Text.ofString "\nSkipped non-JSON artifacts:")
    others.forM fun w => say (Text.ofString "  - " ++ w.fileName)
  say (Text.ofString ("\nSummary: " ++ tally.succeeded.repr ++ " succeeded, " ++ tally.failed.repr
    ++ " failed"))
  if 0 < tally.failed then throw (.exit 1)

/-- Prints the stored schema of an artifact, or what a prompt says of it. -/
def showSchema (p : ProjectContext) (options : Arguments.Values) : Session Unit := do
  let slug := options.text "PIPELINE_SLUG"
  let artifact := options.text "ARTIFACT"
  let l ← locate p slug
  let stored ← unwrap (fun e => fault (.load e))
    (StoredSchema.load (← get).files l.configDir artifact)
  if !stored.isPresent then
    refuse (Text.ofString "No schema found for " ++ artifact ++ Text.ofString " in pipeline '"
      ++ slug ++ Text.ofString "' (run: pipedash analyze pipeline " ++ slug ++ Text.ofString ")")
  if options.has "prompt" then say (StoredSchema.promptSection [(artifact, stored)])
  else
    say (Text.ofString "Schema:")
    say stored.schema.prettyAscii
    if !stored.sample.isNull then
      say (Text.ofString "\nSample:")
      say stored.sample.prettyAscii
    if !stored.origin.isNull then
      say (Text.ofString "\nMeta:")
      say stored.origin.prettyAscii

def program (words : List Text) : Session Unit := do
  let (options, group, rest) ← choice Command.program words
  let p ← prepare options
  if group = "analyze" then
    let (_, command, rest) ← choice Command.analyze rest
    if command = "task" then analyzeTask (← Session.options Command.analyzeTask rest)
    else analyzePipeline p (← Session.options Command.analyzePipeline rest)
  else
    let (_, command, rest) ← choice Command.schemas rest
    if command = "deduce" then deduceSchemas p (← Session.options Command.deduceSchemas rest)
    else showSchema p (← Session.options Command.showSchema rest)

end Session

structure Outcome where
  exit : Nat
  printed : List Printed
  logLevel : Option Nat
  /-- The settings of the clients that were made, in order. -/
  clients : List ModelSettings
  fault : Option Fault

def run (words : List Text) (s : Surroundings) : Outcome × Surroundings :=
  let (result, s) := (Session.program words).run { s with }
  let (exit, fault) : Nat × Option Fault := match result with
    | .ok () => (0, none)
    | .error (.exit code) => (code, none)
    | .error (.fault f) => (1, some f)
  ({ exit, printed := s.printed, logLevel := s.logLevel, clients := s.clients.reverse, fault },
    s.toSurroundings)

end TaskContract.CommandLine
