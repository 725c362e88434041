import TaskContract.Proofs.Chat.Requests
import TaskContract.Proofs.CommandLine.Session
import TaskContract.Proofs.Pipeline.Passage

/-!
# Schemas that are deduced again by a call

The schemas of a task that a run has deduced can be deduced by a call of the program from the
contract that the run has stored. The call reads the writes of the task back from the contract, so
with the same replies it makes the deductions of the run, and it stores the same files.
-/

namespace TaskContract.CommandLine

namespace Session

def deductionPlan (p : ProjectContext) (s : State) (code : Text) (directory : Path) :
    DeductionPlan Chat.Wire :=
  { client := Chat.Client.overWire
      { environment := s.environment, maxRetries := p.configuration.model.maxRetries }
    pause := fun delay w => w.wait delay, model := modelOf p, code, directory, attempts := 1
    now := s.now }

def planFor (p : ProjectContext) (options : Arguments.Values) (s : State) (code : Text) :
    DeductionPlan Chat.Wire :=
  { deductionPlan p s code (options.path "output") with
    attempts := (options.count? "retries").getD p.configuration.analysis.schemaRetries.toNat }

def deductionStart (options : Arguments.Values) (s : State) : DeductionState Chat.Wire :=
  { files := (s.files.makeDirectories (options.path "output")).2, client := s.wire }

/-- A call reads artifacts from a contract, and the code of their task. There can be a directory to
store in, and what the call prints of the paths can be printed. -/
structure CanDeduce (options : Arguments.Values) (s : State) (writes : List ArtifactWrite)
    (code : Text) : Prop where
  contract : ∃ stored v, s.files.read (options.path "analysis") = .ok stored
    ∧ Json.read stored = .ok v ∧ Contract.storedWrites? v = some writes
  script : s.files.read (options.path "task") = .ok code
  directory : (s.files.makeDirectories (options.path "output")).1 = .ok ()
  taskText : (options.path "task").text.isScalar = true
  outputText : (options.path "output").text.isScalar = true

def skippedLine (w : ArtifactWrite) : Text :=
  Text.ofString "  - " ++ w.fileName

theorem outputs_skipped_iff {others : List ArtifactWrite} :
    (Console.outputs (others.map skippedLine)).2 = none
      ↔ ∀ w ∈ others, w.fileName.isScalar = true := by
  rw [Console.outputs_fault_eq_none_iff, List.forall_mem_map]
  simp only [skippedLine, Text.isScalar_append, Text.isScalar_ofString, Bool.true_and]

/-- How a call ends after its deductions: by the count of those that have failed, unless a name
cannot be printed. -/
def deductionEnding (others : List ArtifactWrite) :
    Except EncodingFault Tally → Except Ending Unit
  | .error f => .error (.fault (.output f))
  | .ok tally =>
    match (Console.outputs (others.map skippedLine)).2 with
    | some f => .error (.fault (.output f))
    | none => if 0 < tally.failed then .error (.exit 1) else .ok ()

section

variable {p : ProjectContext} {options : Arguments.Values} {s : State} {code : Text}
  {writes : List ArtifactWrite}

theorem ends_summary (others : List ArtifactWrite) (tally : Tally) (s : State) :
    ∃ last, Ends (do
        if !others.isEmpty then
          say (Text.ofString "\nSkipped non-JSON artifacts:")
          others.forM fun w => say (skippedLine w)
        say (Text.ofString ("\nSummary: " ++ tally.succeeded.repr ++ " succeeded, "
          ++ tally.failed.repr ++ " failed"))
        if 0 < tally.failed then throw (.exit 1)) s (deductionEnding others (.ok tally)) last
      ∧ (last.files, last.wire) = (s.files, s.wire) := by
  have hend : ∀ s : State, ∃ last, Ends (do
        say (Text.ofString ("\nSummary: " ++ tally.succeeded.repr ++ " succeeded, "
          ++ tally.failed.repr ++ " failed"))
        if 0 < tally.failed then throw (.exit 1)) s
        (if 0 < tally.failed then .error (.exit 1) else .ok ()) last
      ∧ (last.files, last.wire) = (s.files, s.wire) := by
    intro s
    refine (gives_say (Text.isScalar_ofString _) s).andThen ?_
    split
    · exact ⟨_, ends_throw _ _, rfl⟩
    · exact ⟨_, gives_pure () _, rfl⟩
  rcases others with _ | ⟨w, rest⟩
  · exact hend s
  · refine (gives_say (Text.isScalar_ofString _) s).andThen ?_
    have hothers := ends_sayAll (w :: rest) skippedLine
      { s with printed := s.printed
        ++ [⟨.output, Console.line (Text.ofString "\nSkipped non-JSON artifacts:")⟩] }
    rw [deductionEnding]
    cases hfault : (Console.outputs ((w :: rest).map skippedLine)).2 with
    | some f =>
        rw [hfault] at hothers
        exact ⟨_, hothers.bind_error, rfl⟩
    | none =>
        rw [hfault] at hothers
        exact Gives.andThen hothers (hend _)

/-- Where a call can deduce schemas, it does so and ends by what has become of them. -/
theorem ends_deduceSchemas (h : CanDeduce options s writes code)
    {result : Except EncodingFault Tally} {done : DeductionState Chat.Wire}
    (hall : (planFor p options s code).deduceAll (writes.filter fun w => isJsonArtifact w.fileName)
      (deductionStart options s) = (result, done)) :
    ∃ last, Ends (deduceSchemas p options) s
        (deductionEnding (writes.filter fun w => !isJsonArtifact w.fileName) result) last
      ∧ (last.files, last.wire) = (done.files, done.client) := by
  obtain ⟨stored, v, hanalysis, hvalue, hwrites⟩ := h.contract
  have hline : ∀ {front : String} {text : Text}, text.isScalar = true →
      (Text.ofString front ++ text).isScalar = true := fun h =>
    Text.isScalar_append_of (Text.isScalar_ofString _) h
  refine (gives_readFile hanalysis _).andThen ?_
  rw [hvalue]
  refine (gives_pure v s).andThen ?_
  dsimp only
  rw [hwrites]
  dsimp only
  refine (gives_readFile h.script _).andThen ?_
  refine (gives_get s).andThen ?_
  have hmake : s.files.makeDirectories (options.path "output")
      = (.ok (), (s.files.makeDirectories (options.path "output")).2) := Prod.ext h.directory rfl
  unfold planFor deductionPlan deductionStart at hall
  rw [hmake, List.partition_eq_filter_filter]
  dsimp only
  refine (gives_set s _).andThen ?_
  refine (gives_unwrap () _).andThen ?_
  refine (gives_say (Text.isScalar_ofString _) _).andThen ?_
  refine (gives_say (hline h.taskText) _).andThen ?_
  refine (gives_say (Text.isScalar_append_of (hline h.outputText) (Text.isScalar_ofString _))
    _).andThen ?_
  refine (gives_connect p _).andThen ?_
  refine (gives_get _).andThen ?_
  dsimp only
  rw [show DeductionPlan.deduceAll _ _ _ = _ from hall]
  dsimp only
  refine (gives_set _ _).andThen ?_
  have hothers : (not ∘ fun w : ArtifactWrite => isJsonArtifact w.fileName)
      = fun w => !isJsonArtifact w.fileName := rfl
  rw [hothers]
  cases result with
  | error f => exact ⟨_, (ends_throw _ _).bind_error, rfl⟩
  | ok tally =>
      refine (gives_unwrap _ _).andThen ?_
      exact ends_summary _ tally _

end

/-! ## Calls -/

variable {s : State} {c : Command} {words rest : List Text} {values : Arguments.Values}

theorem gives_arguments (h : Arguments.read s.files c.parameters c.isGroup words
    = .ok (values, rest)) : Gives (arguments c words) s (values, rest) s := by
  refine (gives_get s).bind ?_
  dsimp only
  rw [h]
  exact gives_pure _ s

theorem gives_options (h : Arguments.read s.files c.parameters c.isGroup words
    = .ok (values, [])) : Gives (options c words) s values s :=
  (gives_arguments h).bind (gives_pure values s)

theorem gives_choice {name : Text} {known : String × String} (hwords : words ≠ [])
    (h : Arguments.read s.files c.parameters c.isGroup words = .ok (values, name :: rest))
    (hknown : c.commands.find? (fun known => name = Text.ofString known.1) = some known) :
    Gives (choice c words) s (values, known.1, rest) s := by
  obtain ⟨word, others, rfl⟩ := List.exists_cons_of_ne_nil hwords
  refine (gives_arguments h).bind ?_
  dsimp only
  rw [hknown]
  exact gives_pure _ s

end Session

/-- A call of the program comes to the deduction of schemas, with the project that it is about and
its options. -/
def CallsDeduction (words : List Text) (s : Surroundings) (p : ProjectContext) (ready : State)
    (options : Arguments.Values) : Prop :=
  ∃ general rest own after,
    Session.Gives (Session.choice Command.program words) { s with } (general, "schemas", rest)
      { s with }
    ∧ Session.Gives (Session.prepare general) { s with } p ready
    ∧ Session.Gives (Session.choice Command.schemas rest) ready (own, "deduce", after) ready
    ∧ Session.Gives (Session.options Command.deduceSchemas after) ready options ready

theorem CallsDeduction.ends {words : List Text} {s : Surroundings} {p : ProjectContext}
    {ready last : State} {options : Arguments.Values} {r : Except Ending Unit}
    (h : CallsDeduction words s p ready options)
    (hdeduce : Session.Ends (Session.deduceSchemas p options) ready r last) :
    Session.Ends (Session.program words) { s with } r last := by
  obtain ⟨general, rest, own, after, hprogram, hprepare, hgroup, hoptions⟩ := h
  exact hprogram.bind (hprepare.bind (hgroup.bind (hoptions.bind hdeduce)))

def deductionCall (analysis task output : Text) : List Text :=
  Text.ofString "schemas" :: Text.ofString "deduce" :: Arguments.deductionWords analysis task output

theorem callsDeduction_deductionCall {s : Surroundings} {ready : State} {p : ProjectContext}
    {analysis task output : Text} {place place' room : List Text} {text text' : Text}
    (hanalysis : s.files.locate (Path.ofText analysis) = .ok (.file place text))
    (htask : s.files.locate (Path.ofText task) = .ok (.file place' text'))
    (houtput : s.files.locate (Path.ofText output) = .ok (.directory room))
    (hprepare : (Session.prepare Arguments.standardValues).run { s with } = (.ok p, ready)) :
    CallsDeduction (deductionCall analysis task output) s p ready
      (Arguments.deductionValues analysis task output) := by
  obtain ⟨hfiles, -, -⟩ := Session.still_prepare Arguments.standardValues { s with }
  rw [hprepare] at hfiles
  have hdeduce : Arguments.isOptionWord (Text.ofString "deduce") = false := by decide
  have hschemas : Arguments.isOptionWord (Text.ofString "schemas") = false := by decide
  have hprogram := Session.gives_choice (s := { s with }) (c := Command.program)
    (List.cons_ne_nil _ _) (Arguments.read_program hschemas
      (Text.ofString "deduce" :: Arguments.deductionWords analysis task output)) rfl
  have hgroup := Session.gives_choice (s := ready) (c := Command.schemas) (List.cons_ne_nil _ _)
    (Arguments.read_schemas hdeduce (Arguments.deductionWords analysis task output)) rfl
  have hoptions := Session.gives_options (s := ready) (c := Command.deduceSchemas)
    (hfiles ▸ Arguments.read_deductionWords hanalysis htask houtput)
  exact ⟨_, _, _, _, hprogram, hprepare, hgroup, hoptions⟩

theorem exitOf_deductionEnding {others : List ArtifactWrite}
    (h : ∀ w ∈ others, w.fileName.isScalar = true) (tally : Tally) :
    exitOf (Session.deductionEnding others (.ok tally))
      = (if 0 < tally.failed then 1 else 0, none) := by
  rw [Session.deductionEnding, Session.outputs_skipped_iff.mpr h]
  dsimp only
  split <;> rfl

/-! ## The task of a run -/

/-- A call is made for a task of a run as the run was: with the same configuration and clock, the
contract that the run has stored, the same script, an empty directory, and the same exchanges to
come. -/
structure ResumesTask (chat : Chat.Settings) (c : Conditions Chat.Wire) (t : TaskWork)
    (contract : Text) (exchanges : List Chat.Exchange) (s : Surroundings)
    (analysis task output : Text) (place : List Text) : Prop where
  configuration : ∃ p ready,
    (Session.prepare Arguments.standardValues).run { s with } = (.ok p, ready)
      ∧ chat = { environment := ready.environment, maxRetries := p.configuration.model.maxRetries }
      ∧ c.model = Session.modelOf p
  clock : s.now = c.now
  contractFile : ∃ q, s.files.locate (Path.ofText analysis) = .ok (.file q contract)
  script : s.files.read (Path.ofText task) = .ok t.code
  directory : s.files.locate (Path.ofText output) = .ok (.directory place)
  isEmpty : ∀ q, q ≠ [] → s.files.entry? (place ++ q) = none
  replies : s.wire.upcoming exchanges.length = exchanges

/-- What a call prints of its paths can be printed, and the paths of the files that it is to store
can be looked up. -/
structure HasFitPaths (artifacts : List ArtifactWrite) (task output : Text) : Prop where
  taskText : (Path.ofText task).text.isScalar = true
  outputText : (Path.ofText output).text.isScalar = true
  files : ∀ a ∈ artifacts, FitsBelow (Path.ofText output) a

section

variable {chat : Chat.Settings} {c : Conditions Chat.Wire} {t : TaskWork} {contract : Text}
  {exchanges : List Chat.Exchange} {s : Surroundings} {analysis task output : Text}
  {place : List Text}

/-- Such a call makes deductions as the run does, and comes to what they come to. -/
theorem ResumesTask.comes_to
    (h : ResumesTask chat c t contract exchanges s analysis task output place)
    (hclient : c.client = Chat.Client.overWire chat) {l : PipelineLocation}
    (houtput : l.configDir = Path.ofText output) {taskFilePath : Text}
    (hback : t.contract.IsReadFrom taskFilePath c.now (Text.unifyLineEnds contract))
    (hnames : ∀ a ∈ t.contract.writes, a.fileName.isScalar = true)
    (htaskText : (Path.ofText task).text.isScalar = true)
    (houtputText : (Path.ofText output).text.isScalar = true) :
    ∃ plan : DeductionPlan Chat.Wire, plan.Makes c l t ∧ ∀ tally done,
      plan.deduceAll (t.contract.writes.filter fun a => isJsonArtifact a.fileName)
          { files := s.files, client := s.wire } = (.ok tally, done) →
        (run (deductionCall analysis task output) s).1.exit = (if 0 < tally.failed then 1 else 0)
          ∧ (run (deductionCall analysis task output) s).2.files = done.files := by
  obtain ⟨p, ready, hprepare, hchat, hmodel⟩ := h.configuration
  obtain ⟨hfiles, hwire, hnow⟩ := Session.still_prepare Arguments.standardValues { s with }
  rw [hprepare] at hfiles hwire hnow
  dsimp only at hfiles hwire hnow
  obtain ⟨q, hcontract⟩ := h.contractFile
  have hread : s.files.read (Path.ofText analysis) = .ok (Text.unifyLineEnds contract) := by
    rw [FileTree.read, hcontract]
  obtain ⟨_, _, hscript⟩ := FileTree.locate_of_read h.script
  obtain ⟨ms, -, hvalue⟩ := hback.value
  have hmake : ready.files.makeDirectories (Path.ofText output) = (.ok (), ready.files) :=
    FileTree.makeDirectories_of_directory (hfiles ▸ h.directory)
  have hcan : Session.CanDeduce (Arguments.deductionValues analysis task output) ready
      t.contract.writes t.code := by
    constructor
    · exact ⟨_, _, hfiles ▸ hread, hvalue, hback.writes _ hvalue⟩
    · exact hfiles ▸ h.script
    · exact congrArg Prod.fst hmake
    · exact htaskText
    · exact houtputText
  refine ⟨Session.deductionPlan p ready t.code (Path.ofText output),
    ⟨?_, hmodel.symm, rfl, houtput.symm, hnow.trans h.clock, rfl⟩, ?_⟩
  · rw [hclient, hchat]
    rfl
  intro tally done hall
  have hstart : Session.deductionStart (Arguments.deductionValues analysis task output) ready
      = { files := s.files, client := s.wire } := by
    unfold Session.deductionStart
    rw [show (Arguments.deductionValues analysis task output).path "output" = Path.ofText output
      from rfl, hmake, hfiles, hwire]
  rw [← hstart] at hall
  obtain ⟨last, hlast, hstop⟩ := Session.ends_deduceSchemas hcan hall
  have hskipped : ∀ w ∈ t.contract.writes.filter fun w => !isJsonArtifact w.fileName,
      w.fileName.isScalar = true := fun w hw => hnames w (List.mem_of_mem_filter hw)
  have hprogram := (callsDeduction_deductionCall hcontract hscript h.directory hprepare).ends hlast
  obtain ⟨-, hcode, hleft⟩ := run_of_ends hprogram
  rw [exitOf_deductionEnding hskipped] at hcode
  refine ⟨(Prod.mk.inj hcode).1, ?_⟩
  rw [hleft]
  exact congrArg Prod.fst hstop

end

/-- **The schemas of a task are deduced again by a call**, if of all artifacts with one base name the
last in order is also the one whose schema was complete last. -/
theorem deduced_again {chat : Chat.Settings} {c : Conditions Chat.Wire} {l : PipelineLocation}
    (hclient : c.client = Chat.Client.overWire chat) {w w' : World Chat.Wire} {summary : Summary}
    (h : analyzePipeline c l w = (.ok summary, w')) :
    ∃ work xs, SucceededBy c l w w' summary work xs
      ∧ ∀ earlier x later, xs = earlier ++ x :: later →
        x.task.contract.unresolvedReads = [] → x.task.contract.unresolvedWrites = [] →
        x.task.code.length + 1 < 10 ^ Json.digitLimit →
        (∀ a ∈ x.answers.artifacts c,
          lastFor a.fileName (x.deductions c) = lastFor a.fileName (x.inOrder c)) →
        ∃ before stored after, PassesThrough c l work (w.files, w.client) (w'.files, w'.client)
            earlier x later before stored after
          ∧ ∃ q contract n, stored.1.locate (ContractFile.path l.configDir x.task.task)
              = .ok (.file q contract)
            ∧ stored.2.Advances after.2 n
            ∧ ∀ s analysis task output place,
              ResumesTask chat c x.task contract (stored.2.upcoming n) s analysis task output place →
              HasFitPaths (x.answers.artifacts c) task output →
              ∃ place' files, files.map Prod.fst = schemaNames (x.answers.artifacts c)
                ∧ stored.1.PutsIn after.1 (l.configDir / "schemas") place' files
                ∧ (run (deductionCall analysis task output) s).1.exit = 0
                ∧ s.files.PutsIn (run (deductionCall analysis task output) s).2.files
                  (Path.ofText output / "schemas") (place ++ [Text.ofString "schemas"]) files := by
  obtain ⟨work, xs, hsucceeded⟩ := succeededBy_of_ok h
  refine ⟨work, xs, hsucceeded, ?_⟩
  intro earlier x later hxs hreads hwrites hsize hlast
  have hx : x ∈ xs := hxs ▸ List.mem_append_right _ List.mem_cons_self
  have hdone := hsucceeded.tasks.done x hx
  obtain ⟨before, stored, after, hpasses⟩ := hsucceeded.passesThrough hxs hreads hwrites
  obtain ⟨q, contract, hlocate, hnames, hback⟩ :=
    hsucceeded.contract_stored hx hsize hpasses.stores
  have hwritten : ∀ a ∈ x.task.contract.writes, a.fileName.isScalar = true := fun a ha =>
    hnames a.fileName (List.mem_append_right _ (List.mem_map_of_mem ha))
  have hartifacts : x.answers.artifacts c
      = x.task.contract.writes.filter fun a => isJsonArtifact a.fileName :=
    TaskAnswers.artifacts_of_resolved hwrites
  have hscalar : ∀ a ∈ x.answers.artifacts c, a.fileName.isScalar = true := fun a ha =>
    hwritten a (List.mem_of_mem_filter (hartifacts ▸ ha))
  obtain ⟨n, hadvances, halike⟩ := hdone.alike hclient hpasses.deduces
    (hpasses.isThere hsucceeded) (fun a _ => DoneTask.spellsAlike_of_isScalar hscalar _) hlast
  refine ⟨before, stored, after, hpasses, q, contract, n, hlocate, hadvances, ?_⟩
  intro s analysis task output place hcall hpaths
  have hreplies : s.wire.upcoming n = stored.2.upcoming n := by
    rw [← hcall.replies, Chat.Wire.length_upcoming]
  -- the deductions of the run are made again below the directory of the call
  let l' : PipelineLocation := { l with configDir := Path.ofText output }
  obtain ⟨stop, place', files, hturn, hfilenames, hputs, hputs'⟩ :=
    halike l' s.files s.wire (place ++ [Text.ofString "schemas"])
      (fun a ha => schemaRoom_of_empty hcall.directory hcall.isEmpty (hpaths.files a ha))
      (canBeNamed_of_textFault (FileTree.locate_eq_ok hcall.directory).1) hpaths.files hreplies
  obtain ⟨plan, hplan, hcomes⟩ :=
    hcall.comes_to hclient (show l'.configDir = Path.ofText output from rfl) hback hwritten
      hpaths.taskText hpaths.outputText
  have horder := hdone.inOrder_spec.1
  obtain ⟨done, hdeduce, hstop⟩ := hplan.deduceFrom
    (s := { files := s.files, client := s.wire }) hturn
    (fun d hd => hscalar d.artifact (horder ▸ List.mem_map_of_mem hd)) _ 1 {}
  rw [horder, hartifacts] at hdeduce
  obtain ⟨hexit, hleft⟩ := hcomes _ done hdeduce
  have hfiles : done.files = stop.1 := congrArg Prod.fst hstop
  rw [← hfiles, ← hleft] at hputs'
  exact ⟨place', files, hfilenames, hputs, hexit, hputs'⟩

/-! ## A run with one artifact -/

def oneScript : Text :=
  Text.ofString "export const f=()=>io.writeArtifact('a.json')"

def oneArtifact : FileTree :=
  { entries := [([Text.ofString "p"], .directory),
      ([Text.ofString "p", Text.ofString "pipeline.json"],
        .file (Text.ofString "\x7b\"tasks\":[\"t\"]\x7d")),
      ([Text.ofString "p", Text.ofString "t.js"], .file oneScript)]
    current := [] }

def oneKey : Chat.Settings :=
  { environment := [(Text.ofString "DEEPSEEK_API_KEY", Text.ofString "k")] }

def deepseek : Chat.Provider :=
  ⟨"https://api.deepseek.com", "DEEPSEEK_API_KEY", "deepseek-chat"⟩

def oneReply : Chat.Wire :=
  { pending := [.answer 200 (Text.ofString ("\x7b\"choices\":[\x7b\"message\":\x7b\"content\":"
      ++ "\"\x7b\\\"schema\\\":\x7b\x7d,\\\"example\\\":[],\\\"reasoning\\\":\\\"\\\"\x7d\""
      ++ "\x7d\x7d]\x7d"))]
    otherwise := .fault [] [] }

def overOneWire : Conditions Chat.Wire :=
  { client := Chat.Client.overWire oneKey, now := ⟨2026, 1, 2, 3, 4, 5, 0⟩ }

def oneArtifactWorld : World Chat.Wire :=
  { files := oneArtifact, client := oneReply }

def oneWritten : ArtifactWrite :=
  ⟨Text.ofString "a.json", Text.ofString "f"⟩

set_option maxRecDepth 100000 in
theorem oneArtifact_prepared : ((Run.prepared flatLocation oneArtifact).toOption.any fun work =>
      work.map TaskWork.code = [oneScript] && work.all fun t =>
        t.contract.unresolvedReads.isEmpty && t.contract.unresolvedWrites.isEmpty
          && t.contract.writes.map (fun a => (a.fileName, a.stage))
            = [(oneWritten.fileName, oneWritten.stage)]) = true := by
  decide +kernel

theorem oneArtifact_work {work : List TaskWork}
    (h : Run.prepared flatLocation oneArtifact = .ok work) :
    ∃ t, work = [t] ∧ t.code = oneScript ∧ t.contract.unresolvedReads = []
      ∧ t.contract.unresolvedWrites = [] ∧ t.contract.writes = [oneWritten] := by
  have hwork := oneArtifact_prepared
  rw [h] at hwork
  obtain ⟨hcodes, hall⟩ := Bool.and_eq_true_iff.mp hwork
  obtain ⟨t, rfl, hcode⟩ := List.map_eq_singleton_iff.mp (of_decide_eq_true hcodes)
  have ht := List.all_eq_true.mp hall t (List.mem_singleton_self t)
  simp only [Bool.and_eq_true, List.isEmpty_iff, decide_eq_true_eq] at ht
  obtain ⟨⟨hreads, hwrites⟩, hartifacts⟩ := ht
  obtain ⟨⟨name, stage⟩, hwritten, hwrite⟩ := List.map_eq_singleton_iff.mp hartifacts
  obtain ⟨rfl, rfl⟩ := Prod.mk.inj hwrite
  exact ⟨t, rfl, hcode, hreads, hwrites, hwritten⟩

set_option maxRecDepth 100000 in
/-- The run succeeds with a client that does not look at its requests. -/
theorem oneArtifact_answered : (analyzePipeline
    { overOneWire with client := Chat.Client.sending oneKey deepseek (Text.ofString "k") }
    flatLocation oneArtifactWorld).1.isOk = true := by
  decide +kernel

theorem oneArtifact_succeeds : ∃ s w',
    analyzePipeline overOneWire flatLocation oneArtifactWorld = (.ok s, w') := by
  have hok := oneArtifact_answered
  have hkey : Chat.HasKey oneKey overOneWire.model.provider deepseek (Text.ofString "k") :=
    ⟨rfl, rfl, by decide, by decide, by decide⟩
  cases hrun : analyzePipeline
      { overOneWire with client := Chat.Client.sending oneKey deepseek (Text.ofString "k") }
      flatLocation oneArtifactWorld with
  | mk r w' =>
      rw [hrun] at hok
      cases r with
      | error e => cases hok
      | ok s =>
          obtain ⟨_, _, hsucceeded⟩ := succeeded_of_ok hrun
          obtain ⟨t, rfl, hcode, hreads, hwrites, hartifacts⟩ :=
            oneArtifact_work hsucceeded.prepared
          refine ⟨s, w', (analyzePipeline_congr hsucceeded.prepared ?_ ?_).symm.trans hrun⟩
          · exact List.forall_mem_singleton.mpr ⟨hreads, hwrites⟩
          · have hclient : overOneWire.client = Chat.Client.overWire oneKey := rfl
            rw [List.forall_mem_singleton, hartifacts, List.forall_mem_singleton, hcode, hclient]
            have hscript : oneScript.isScalar = true := Text.isScalar_ofString _
            have hname : oneWritten.fileName.isScalar = true := Text.isScalar_ofString _
            have hstage : oneWritten.stage.isScalar = true := Text.isScalar_ofString _
            exact sending_deduction hscript hname hstage hkey (by decide)

theorem oneArtifact_done {w' : World Chat.Wire} {s : Summary} {work : List TaskWork}
    {xs : List DoneTask}
    (h : SucceededBy overOneWire flatLocation oneArtifactWorld w' s work xs) :
    ∃ x, xs = [x] ∧ x.task.code = oneScript ∧ x.task.contract.unresolvedReads = []
      ∧ x.task.contract.unresolvedWrites = [] ∧ x.task.contract.writes = [oneWritten] := by
  obtain ⟨t, rfl, ht⟩ := oneArtifact_work h.succeeded.prepared
  obtain ⟨x, hx, rfl⟩ := List.map_eq_singleton_iff.mp h.tasks.tasks
  exact ⟨x, hx, ht⟩

theorem oneArtifact_artifacts {x : DoneTask} (hwrites : x.task.contract.unresolvedWrites = [])
    (hartifacts : x.task.contract.writes = [oneWritten]) :
    x.answers.artifacts overOneWire = [oneWritten] := by
  rw [TaskAnswers.artifacts_of_resolved hwrites,
    show x.answers.work.contract.writes = [oneWritten] from hartifacts]
  rfl

/-- Where a task has one artifact, no other has its base name. -/
theorem lastFor_of_single {x : DoneTask} {total : Nat} (h : x.IsDone overOneWire flatLocation total)
    (hjson : x.answers.artifacts overOneWire = [oneWritten]) :
    ∀ a ∈ x.answers.artifacts overOneWire,
      lastFor a.fileName (x.deductions overOneWire) = lastFor a.fileName (x.inOrder overOneWire) := by
  have honly : (x.answers.artifacts overOneWire)[0]? = some oneWritten := by
    rw [hjson]
    rfl
  intro a ha
  obtain rfl := List.mem_singleton.mp (hjson ▸ ha)
  refine h.lastFor_of_alone honly fun j b hb _ => ?_
  rw [hjson] at hb
  have hj := (List.getElem?_eq_some_iff.mp hb).1
  exact Nat.lt_one_iff.mp hj

theorem oneArtifact_wire {work : List TaskWork} {x : DoneTask}
    {stop before stored after : FileTree × Chat.Wire}
    (h : PassesThrough overOneWire flatLocation work
      (oneArtifactWorld.files, oneArtifactWorld.client) stop [] x [] before stored after) :
    stored.2 = oneReply := by
  obtain rfl := h.comes.nil_inv
  exact h.stores.replies.2

theorem oneScript_fits : oneScript.length + 1 < 10 ^ Json.digitLimit := by
  have hshort : oneScript.length + 1 < Json.digitLimit := by decide
  exact hshort.trans (Nat.lt_pow_self (by decide))

def callFiles : FileTree :=
  { entries := [([Text.ofString "t.js"], .file oneScript), ([Text.ofString "d"], .directory)]
    current := [] }

def oneCall (contract : Text) : Surroundings where
  files := callFiles.insert [Text.ofString "c.json"] (.file contract)
  environment := oneKey.environment
  wire := oneReply
  now := overOneWire.now

theorem oneCall_resumes {t : TaskWork} (hcode : t.code = oneScript) (contract : Text) (n : Nat)
    {output : Text}
    (houtput : callFiles.locate (Path.ofText output) = .ok (.directory [Text.ofString "d"])) :
    ResumesTask oneKey overOneWire t contract (oneReply.upcoming n) (oneCall contract)
      (Text.ofString "c.json") (Text.ofString "t.js") output [Text.ofString "d"] where
  configuration := ⟨_, _, rfl, rfl, rfl⟩
  clock := rfl
  contractFile := ⟨_, rfl⟩
  script := by
    rw [hcode, ← Text.unifyLineEnds_of_noReturn (t := oneScript) (by decide)]
    rfl
  directory := by
    have hfree : callFiles.entry? [Text.ofString "c.json"] = none := rfl
    have hkeeps := FileTree.keeps_insert (t := callFiles) (by rw [hfree]; exact nofun)
      (.file contract)
    exact hkeeps.locate_directory houtput
  isEmpty := by
    intro q hq
    obtain ⟨name, rest, rfl⟩ := List.exists_cons_of_ne_nil hq
    rfl
  replies := by
    rw [Chat.Wire.length_upcoming]
    rfl

theorem oneArtifact_again : overOneWire.client = Chat.Client.overWire oneKey
    ∧ ∃ s w' contract files,
      analyzePipeline overOneWire flatLocation oneArtifactWorld = (.ok s, w')
      ∧ files.map Prod.fst = schemaNames [oneWritten]
      ∧ (run (deductionCall (Text.ofString "c.json") (Text.ofString "t.js") (Text.ofString "d"))
        (oneCall contract)).1.exit = 0
      ∧ (oneCall contract).files.PutsIn (run (deductionCall (Text.ofString "c.json")
          (Text.ofString "t.js") (Text.ofString "d")) (oneCall contract)).2.files
        (Path.ofText (Text.ofString "d") / "schemas")
        [Text.ofString "d", Text.ofString "schemas"] files := by
  refine ⟨rfl, ?_⟩
  obtain ⟨s, w', hrun⟩ := oneArtifact_succeeds
  obtain ⟨work, xs, hsucceeded, hagain⟩ := deduced_again rfl hrun
  obtain ⟨x, rfl, hcode, hreads, hwrites, hartifacts⟩ := oneArtifact_done hsucceeded
  have hjson := oneArtifact_artifacts hwrites hartifacts
  have hdone := hsucceeded.tasks.done x (List.mem_singleton_self x)
  obtain ⟨before, stored, after, hpasses, q, contract, n, -, -, hcall⟩ :=
    hagain [] x [] rfl hreads hwrites (hcode ▸ oneScript_fits) (lastFor_of_single hdone hjson)
  have hpaths : HasFitPaths (x.answers.artifacts overOneWire) (Text.ofString "t.js")
      (Text.ofString "d") := by
    refine ⟨by decide, by decide, ?_⟩
    rw [hjson, List.forall_mem_singleton]
    unfold FitsBelow
    decide +kernel
  obtain ⟨_, files, hfiles, -, hexit, hputs⟩ := hcall (oneCall contract) _ _ _ _
    (oneArtifact_wire hpasses ▸ oneCall_resumes hcode contract n rfl) hpaths
  exact ⟨s, w', contract, files, hrun, hjson ▸ hfiles, hexit, hputs⟩

/-! ## A call that cannot store what the run has stored -/

/-- A way that goes into the directory `d` and out of it some times before it ends there. -/
def winding : Nat → Text
  | 0 => Text.ofString "d"
  | n + 1 => Text.ofString "d/../" ++ winding n

def windingNames : Nat → List Text
  | 0 => [Text.ofString "d"]
  | n + 1 => Text.ofString "d" :: Text.ofString ".." :: windingNames n

/-- A way to the directory `d` so long that no file below it has a path. -/
def windingOutput : Text :=
  winding 818

theorem winding_subset (n : Nat) : winding n ⊆ Text.ofString "d/." := by
  induction n with
  | zero => exact List.cons_subset.mpr ⟨by decide, List.nil_subset _⟩
  | succ n ih => exact List.append_subset.mpr ⟨by decide, ih⟩

theorem windingNames_ne_nil (n : Nat) : windingNames n ≠ [] := by
  cases n <;> exact List.cons_ne_nil _ _

theorem splitOn_winding (n : Nat) : Text.splitOn '/' (winding n) = windingNames n := by
  induction n with
  | zero => rfl
  | succ n ih => exact congrArg (Text.ofString "d" :: Text.ofString ".." :: ·) ih

theorem windingNames_subset (n : Nat) :
    windingNames n ⊆ [Text.ofString "d", Text.ofString ".."] := by
  induction n with
  | zero => exact List.cons_subset.mpr ⟨by decide, List.nil_subset _⟩
  | succ n ih => exact List.cons_subset.mpr ⟨by decide, List.cons_subset.mpr ⟨by decide, ih⟩⟩

theorem ofText_winding (n : Nat) : Path.ofText (winding n) = ⟨[], windingNames n⟩ := by
  have hroot : Path.rootOf (winding n) = [] := by cases n <;> rfl
  have hnames : ∀ name ∈ [Text.ofString "d", Text.ofString ".."],
      (!name.isEmpty && name ≠ Text.ofString ".") = true := by decide
  rw [Path.ofText, hroot, Path.namesOf, splitOn_winding, List.filter_eq_self.mpr]
  exact fun name hname => hnames name (windingNames_subset n hname)

theorem join_windingNames (n : Nat) :
    Text.join (Text.ofString "/") (windingNames n) = winding n := by
  induction n with
  | zero => rfl
  | succ n ih =>
      obtain ⟨name, rest, hnames⟩ := List.exists_cons_of_ne_nil (windingNames_ne_nil n)
      rw [hnames] at ih
      rw [windingNames, winding, hnames, ← ih]
      rfl

theorem text_winding (n : Nat) : (Path.ofText (winding n)).text = winding n := by
  rw [Path.text_of_parts (ofText_winding n ▸ windingNames_ne_nil n), ofText_winding]
  exact join_windingNames n

theorem text_winding_schemas (n : Nat) :
    (Path.ofText (winding n) / "schemas").text = winding n ++ Text.ofString "/schemas" := by
  have hdir : Path.ofText (winding n) / "schemas"
      = ⟨[], windingNames n ++ [Text.ofString "schemas"]⟩ := by
    rw [ofText_winding]
    rfl
  rw [hdir, Path.text_of_parts (List.append_ne_nil_of_right_ne_nil _ (List.cons_ne_nil _ _))]
  show [] ++ _ = _
  rw [List.nil_append, Text.join_append_singleton _ (windingNames_ne_nil n), join_windingNames]
  rfl

theorem length_bytes_winding (n : Nat) : (FileName.bytes (winding n)).length = 5 * n + 1 := by
  induction n with
  | zero => rfl
  | succ n ih =>
      have hround : (FileName.bytes (Text.ofString "d/../")).length = 5 := rfl
      rw [winding, FileName.bytes_append, List.length_append, hround, ih]
      omega

theorem walk_winding (n : Nat) : callFiles.walk (.directory []) (windingNames n)
    = .ok (.directory [Text.ofString "d"]) := by
  induction n with
  | zero => rfl
  | succ n ih => exact ih

theorem windingOutput_locate :
    callFiles.locate (Path.ofText windingOutput) = .ok (.directory [Text.ofString "d"]) := by
  have hcovers : ∀ c ∈ Text.ofString "d/.",
      Encoding.fileName.covers c = true ∧ c ≠ CodePoint.ofNat 0 := by decide
  have hfault : FileTree.textFault? windingOutput = none := by
    refine textFault_eq_none_iff.mpr ⟨fun c hc => (hcovers c (winding_subset _ hc)).1,
      fun hc => (hcovers _ (winding_subset _ hc)).2 rfl, ?_⟩
    rw [windingOutput, length_bytes_winding]
    decide
  rw [FileTree.locate, FileTree.locateAlong, windingOutput, text_winding, ← windingOutput, hfault,
    windingOutput, ofText_winding]
  dsimp only
  rw [show callFiles.current = [] from rfl, ite_self]
  exact walk_winding 818

theorem windingOutput_tooLong :
    FileTree.textFault? (Path.ofText windingOutput / "schemas").text = some .nameTooLong := by
  have hcovers : ∀ c ∈ Text.ofString "d/." ++ Text.ofString "/schemas",
      Encoding.fileName.covers c = true ∧ c ≠ CodePoint.ofNat 0 := by decide
  have hsubset : winding 818 ++ Text.ofString "/schemas"
      ⊆ Text.ofString "d/." ++ Text.ofString "/schemas" := fun c hc => by
    rcases List.mem_append.mp hc with hc | hc
    · exact List.mem_append_left _ (winding_subset _ hc)
    · exact List.mem_append_right _ hc
  have hfault : Encoding.fileName.fault? (winding 818 ++ Text.ofString "/schemas") = none :=
    Encoding.fault_eq_none_iff.mpr fun c hc => (hcovers c (hsubset hc)).1
  have hnul : List.contains (winding 818 ++ Text.ofString "/schemas") (CodePoint.ofNat 0)
      = false := by
    rw [List.contains_eq_mem, decide_eq_false_iff_not]
    exact fun hc => (hcovers _ (hsubset hc)).2 rfl
  have hlength : FileTree.pathLimit
      ≤ (FileName.bytes (winding 818 ++ Text.ofString "/schemas")).length := by
    have hschemas : (FileName.bytes (Text.ofString "/schemas")).length = 8 := rfl
    rw [FileName.bytes_append, List.length_append, length_bytes_winding, hschemas]
    decide
  rw [windingOutput, text_winding_schemas, FileTree.textFault?, hfault]
  dsimp only
  rw [hnul, if_neg Bool.false_ne_true, if_pos hlength]

theorem windingOutput_isScalar : (Path.ofText windingOutput).text.isScalar = true := by
  have hscalar : ∀ c ∈ Text.ofString "d/.", (!c.isSurrogate) = true := by decide
  rw [windingOutput, text_winding]
  exact List.all_eq_true.mpr fun c hc => hscalar c (winding_subset _ hc)

/-- No schema is stored below a directory whose path leaves no room for that of its schemas. -/
theorem SchemaFiles.write_of_nameTooLong {output : Path}
    (h : FileTree.textFault? (output / "schemas").text = some .nameTooLong) (files : FileTree)
    (now : Timestamp) (artifact : Text) (data : Json) :
    (SchemaFiles.write files now output artifact data).1.isOk = false := by
  rw [SchemaFiles.write, SchemaFiles.writeData, SchemaPaths.ofArtifact_eq]
  dsimp only
  rw [Path.parent_child, StoreData.store, StoreData.work]
  cases (SchemaFiles.ofJson now output artifact data).fault? with
  | some f => rfl
  | none =>
      dsimp only
      rw [FileTree.performAll, FileTree.perform, FileTree.makeDirectories_of_nameTooLong h]
      rfl

/-- The call fails although it is made as the run was: it does not store the schema. -/
theorem oneArtifact_not_again : ∃ s w' work x before stored after q contract n,
    analyzePipeline overOneWire flatLocation oneArtifactWorld = (.ok s, w')
      ∧ SucceededBy overOneWire flatLocation oneArtifactWorld w' s work [x]
      ∧ x.task.contract.unresolvedReads = [] ∧ x.task.contract.unresolvedWrites = []
      ∧ x.answers.artifacts overOneWire = [oneWritten]
      ∧ PassesThrough overOneWire flatLocation work
          (oneArtifactWorld.files, oneArtifactWorld.client) (w'.files, w'.client) [] x []
          before stored after
      ∧ stored.1.locate (ContractFile.path flatLocation.configDir x.task.task)
          = .ok (.file q contract)
      ∧ stored.2.Advances after.2 n
      ∧ ResumesTask oneKey overOneWire x.task contract (stored.2.upcoming n) (oneCall contract)
          (Text.ofString "c.json") (Text.ofString "t.js") windingOutput [Text.ofString "d"]
      ∧ (run (deductionCall (Text.ofString "c.json") (Text.ofString "t.js") windingOutput)
          (oneCall contract)).1.exit = 1 := by
  obtain ⟨s, w', hrun⟩ := oneArtifact_succeeds
  obtain ⟨work, xs, hsucceeded⟩ := succeededBy_of_ok hrun
  obtain ⟨x, rfl, hcode, hreads, hwrites, hartifacts⟩ := oneArtifact_done hsucceeded
  have hx : x ∈ [x] := List.mem_singleton_self x
  have hdone := hsucceeded.tasks.done x hx
  have hjson := oneArtifact_artifacts hwrites hartifacts
  obtain ⟨before, stored, after, hpasses⟩ :=
    hsucceeded.passesThrough (show [x] = [] ++ x :: [] from rfl) hreads hwrites
  obtain ⟨q, contract, hlocate, hnames, hback⟩ :=
    hsucceeded.contract_stored hx (hcode ▸ oneScript_fits) hpasses.stores
  have hwritten : ∀ a ∈ x.task.contract.writes, a.fileName.isScalar = true := fun a ha =>
    hnames a.fileName (List.mem_append_right _ (List.mem_map_of_mem ha))
  have hscalar : ∀ a ∈ x.answers.artifacts overOneWire, a.fileName.isScalar = true := by
    rw [hjson, ← hartifacts]
    exact hwritten
  obtain ⟨n, hadvances, -⟩ := hdone.alike rfl hpasses.deduces (hpasses.isThere hsucceeded)
    (fun a _ => DoneTask.spellsAlike_of_isScalar hscalar _) (lastFor_of_single hdone hjson)
  have hwire := oneArtifact_wire hpasses
  have hcall := hwire ▸ oneCall_resumes hcode contract n windingOutput_locate
  refine ⟨s, w', work, x, before, stored, after, q, contract, n, hrun, hsucceeded, hreads, hwrites,
    hjson, hpasses, hlocate, hadvances, hcall, ?_⟩
  obtain ⟨plan, hplan, hcomes⟩ := hcall.comes_to rfl
    (l := { flatLocation with configDir := Path.ofText windingOutput }) rfl hback hwritten
    (by decide) windingOutput_isScalar
  -- the schema comes with the same reply, but there is no room for it
  obtain ⟨vs, hgathered⟩ := hdone.gathered
  obtain ⟨hreplies, -⟩ := TaskAnswers.schemas_of_performs (hgathered.done vs rfl) hpasses.deduces
  obtain ⟨horder, hschemas⟩ := hdone.inOrder_spec
  rw [hjson] at horder hreplies
  obtain ⟨d, hd, hartifact⟩ := List.map_eq_singleton_iff.mp horder
  rw [hreplies, hd, hwire, ← hartifact] at hschemas
  obtain ⟨done, hfails⟩ := hplan.deduceAll_fails
    (s := { files := (oneCall contract).files, client := (oneCall contract).wire })
    (List.forall₂_cons.mp hschemas).1 (hartifact ▸ Text.isScalar_ofString _)
    fun files => SchemaFiles.write_of_nameTooLong windingOutput_tooLong files _ _ _
  rw [hartifacts] at hcomes
  rw [hartifact] at hfails
  exact (hcomes _ done hfails).1

end TaskContract.CommandLine
