import TaskContract.Proofs.Analysis.Outcome
import TaskContract.Proofs.CommandLine.Again

/-!
# The analysis of a task by a call

A call that analyzes a task prints its contract, or it says why the task has none. Only where the
name of an artifact has no value, it ends with a fault that nothing is said about.
-/

namespace TaskContract.CommandLine

/-! ## The call -/

def analysisCall (path : Text) : List Text :=
  [Text.ofString "analyze", Text.ofString "task", path]

def Arguments.analysisValues (path : Text) : Values :=
  [("TASK_PATH", .path (Path.ofText path))]

theorem Arguments.read_analyze {files : FileTree} {word : Text} (hword : isOptionWord word = false)
    (rest : List Text) : read files Command.analyze.parameters Command.analyze.isGroup (word :: rest)
      = .ok ([], word :: rest) := by
  rw [read_group rfl rfl hword]
  rfl

/-- A word that is no option is read as the path of the task. -/
theorem Arguments.read_path {files : FileTree} {path : Text} {place : List Text} {text : Text}
    (hword : isOptionWord path = false)
    (hfile : files.locate (Path.ofText path) = .ok (.file place text)) :
    read files Command.analyzeTask.parameters Command.analyzeTask.isGroup [path]
      = .ok (analysisValues path, []) := by
  let ps := Command.analyzeTask.parameters ++ [Parameter.help]
  have hscan : scan ps false [path] = .ok ([], [path]) := by
    have hdashes : path ≠ Text.ofString "--" := by
      rintro rfl
      cases hword
    rw [scan, if_neg hdashes, hword]
    rfl
  have hread : read files Command.analyzeTask.parameters Command.analyzeTask.isGroup [path]
      = (take files [⟨ps[0], path⟩] [ps[0], ps[1]]).map fun vs => (vs, []) := by
    rw [read, show Command.analyzeTask.isGroup = false from rfl]
    dsimp only
    rw [hscan]
    rfl
  rw [hread, take_given (p := ps[0]) (t := path) rfl (ValueKind.value_of_file hfile),
    take_absent (p := ps[1]) rfl rfl]
  rfl

namespace Session

variable {α β : Type} {m : Session α} {f : α → Session β} {s s' s'' : State}

/-! ## Parts that print nothing -/

theorem Gives.bind_inv {b : β} (h : Gives (m >>= f) s b s'') :
    ∃ a s', Gives m s a s' ∧ Gives (f a) s' b s'' := by
  rw [Gives, Ends, run_bind] at h
  cases hm : m.run s with
  | mk result after =>
      rw [hm] at h
      cases result with
      | error e => cases (Prod.mk.inj h).1
      | ok a => exact ⟨a, after, hm, h⟩

/-- If the part succeeds, it has printed nothing. -/
def Tacit (m : Session α) : Prop :=
  ∀ {s a s'}, Gives m s a s' → s'.printed = s.printed

theorem Tacit.bind (hm : Tacit m) (hf : ∀ a, Tacit (f a)) : Tacit (m >>= f) := by
  intro s b s'' h
  obtain ⟨a, s', hfirst, hrest⟩ := h.bind_inv
  exact (hf a hrest).trans (hm hfirst)

theorem tacit_pure (a : α) : Tacit (pure a) := by
  rintro s b s' h
  obtain ⟨-, rfl⟩ := Prod.mk.inj h
  rfl

theorem tacit_get : Tacit get := by
  rintro s b s' h
  obtain ⟨-, rfl⟩ := Prod.mk.inj h
  rfl

theorem tacit_modify {g : State → State} (hg : ∀ s, (g s).printed = s.printed) :
    Tacit (modify g : Session Unit) := by
  rintro s b s' h
  obtain ⟨-, rfl⟩ := Prod.mk.inj h
  exact hg s

theorem tacit_of_error {e : State → Ending} (h : ∀ s, (m.run s).1 = .error (e s)) : Tacit m := by
  rintro s b s' hgives
  have hresult := h s
  rw [show m.run s = _ from hgives] at hresult
  cases hresult

theorem tacit_fault (e : Fault) : Tacit (fault e : Session α) :=
  tacit_of_error (e := fun _ => .fault e) fun _ => rfl

theorem tacit_refuse (t : Text) : Tacit (refuse t : Session α) :=
  tacit_of_error (e := fun _ => .exit 1) fun _ => rfl

theorem tacit_unwrap {ε : Type} {onError : ε → Session α} (h : ∀ e, Tacit (onError e))
    (result : Except ε α) : Tacit (unwrap onError result) := by
  cases result with
  | ok a => exact tacit_pure a
  | error e => exact h e

theorem tacit_refuseConfiguration (e : ConfigurationError) :
    Tacit (refuseConfiguration e : Session α) := by
  cases e with
  | scalar f => exact tacit_fault _
  | file e => exact tacit_fault _
  | _ => exact tacit_refuse _

theorem tacit_addVariables (directory : Path) : Tacit (addVariables directory) := by
  intro s a s' h
  obtain ⟨_, _, hget, h⟩ := h.bind_inv
  obtain ⟨hstate, rfl⟩ := Prod.mk.inj hget
  obtain rfl := Except.ok.inj hstate
  split at h
  · exact tacit_pure () h
  · dsimp only at h
    obtain ⟨_, _, hset, h⟩ := h.bind_inv
    obtain ⟨-, rfl⟩ := Prod.mk.inj hset
    have hprinted := tacit_unwrap (fun f => tacit_fault (.variable f)) _ h
    exact hprinted

theorem tacit_prepare (options : Arguments.Values) : Tacit (prepare options) := by
  refine Tacit.bind (tacit_get.bind fun _ => tacit_pure _) fun name => ?_
  refine Tacit.bind (tacit_modify fun _ => rfl) fun _ => ?_
  refine Tacit.bind tacit_get fun s => ?_
  refine Tacit.bind (tacit_unwrap (fun e => tacit_fault _) _) fun found => ?_
  refine Tacit.bind (tacit_unwrap tacit_refuseConfiguration _) fun configuration => ?_
  exact Tacit.bind (tacit_addVariables _) fun _ => tacit_pure _

/-! ## What the command prints -/

section

variable {s : State} {path code : Text}

def scriptOf (files : FileTree) (path code : Text) : Script.Source :=
  { chars := code.filterMap CodePoint.toChar?, name := (files.resolve (Path.ofText path)).text }

/-- Once the script has been read, all depends on its analysis. -/
theorem ends_analyzeTask_of (hread : s.files.read (Path.ofText path) = .ok code)
    {r : Except Ending Unit} {last : State}
    (h : Ends (match TaskContract.analyzeTask (scriptOf s.files path code) with
      | .ok c => say c.toJson.prettyAscii
      | .error e => do
        let isDebugging := (← lookup? "PIPEDASH_DEBUG") = some (Text.ofString "1")
        if e.isExplained && !isDebugging then
          refuse (Text.ofString "Error analyzing task:\n" ++ e.message)
        else fault (.analysis e)) s r last) :
    Ends (analyzeTask (Arguments.analysisValues path)) s r last := by
  refine (gives_readFile hread _).bind ?_
  exact (gives_get s).bind h

theorem gives_analyzeTask (hread : s.files.read (Path.ofText path) = .ok code) {c : Contract}
    (hanalyze : TaskContract.analyzeTask (scriptOf s.files path code) = .ok c) :
    Gives (analyzeTask (Arguments.analysisValues path)) s ()
      { s with printed := s.printed ++ [⟨.output, Console.line c.toJson.prettyAscii⟩] } := by
  refine ends_analyzeTask_of hread ?_
  rw [hanalyze]
  exact gives_say (Json.isScalar_prettyAscii _) s

/-- The contract is printed, or what keeps the script from having one is said or is a fault. -/
theorem ends_analyzeTask (hread : s.files.read (Path.ofText path) = .ok code)
    (hdebug : s.environment.lookup (Text.ofString "PIPEDASH_DEBUG") ≠ some (Text.ofString "1")) :
    match TaskContract.analyzeTask (scriptOf s.files path code) with
    | .ok c => Ends (analyzeTask (Arguments.analysisValues path)) s (.ok ())
        { s with printed := s.printed ++ [⟨.output, Console.line c.toJson.prettyAscii⟩] }
    | .error e =>
      if e.isExplained then Ends (analyzeTask (Arguments.analysisValues path)) s (.error (.exit 1))
        { s with printed := s.printed
            ++ [Console.error (Text.ofString "Error: " ++ (Text.ofString "Error analyzing task:\n"
              ++ e.message))] }
      else Ends (analyzeTask (Arguments.analysisValues path)) s (.error (.fault (.analysis e))) s := by
  cases hanalyze : TaskContract.analyzeTask (scriptOf s.files path code) with
  | ok c => exact gives_analyzeTask hread hanalyze
  | error e =>
      have hlookup : Gives (lookup? "PIPEDASH_DEBUG") s
          (s.environment.lookup (Text.ofString "PIPEDASH_DEBUG")) s := rfl
      dsimp only
      split
      · rename_i hexplained
        refine ends_analyzeTask_of hread ?_
        rw [hanalyze]
        refine hlookup.bind ?_
        dsimp only
        rw [hexplained, decide_eq_false hdebug]
        rfl
      · rename_i hunexplained
        refine ends_analyzeTask_of hread ?_
        rw [hanalyze]
        refine hlookup.bind ?_
        rw [Bool.not_eq_true] at hunexplained
        rw [hunexplained]
        rfl

end

end Session

/-! ## What the call comes to -/

/-- What the call comes to that analyzes a script: it prints the contract, it says what keeps the
script from having one, or it has a fault that is not explained. -/
inductive IsAnalysisOf (script : Script.Source) (o : Outcome) : Prop where
  | printed (c : Contract) (analyzed : analyzeTask script = .ok c) (exit : o.exit = 0)
      (fault : o.fault = none)
      (printed : o.printed = [⟨.output, Console.line c.toJson.prettyAscii⟩])
  | explained (e : AnalysisError) (failed : analyzeTask script = .error e)
      (isExplained : e.isExplained = true) (exit : o.exit = 1) (fault : o.fault = none)
      (printed : o.printed = [Console.error (Text.ofString "Error: "
        ++ (Text.ofString "Error analyzing task:\n" ++ e.message))])
  | beyond (cause : Script.EscapeError)
      (failed : analyzeTask script = .error (.call (.escape cause))) (exit : o.exit = 1)
      (fault : o.fault = some (.analysis (.call (.escape cause)))) (printed : o.printed = [])

section

variable {s : Surroundings} {path text : Text} {place : List Text} {p : ProjectContext}
  {ready : State}

/-- The state that a session is prepared to has the files of its surroundings, and nothing has been
printed. -/
theorem Session.ready_of_prepare
    (hprepare : (Session.prepare Arguments.standardValues).run { s with } = (.ok p, ready)) :
    ready.files = s.files ∧ ready.printed = [] := by
  obtain ⟨hfiles, -, -⟩ := Session.still_prepare Arguments.standardValues { s with }
  rw [hprepare] at hfiles
  exact ⟨hfiles, Session.tacit_prepare _ hprepare⟩

/-- The program gets to the command with the path. -/
theorem Session.ends_analysisCall (hword : Arguments.isOptionWord path = false)
    (hfile : s.files.locate (Path.ofText path) = .ok (.file place text))
    (hprepare : (Session.prepare Arguments.standardValues).run { s with } = (.ok p, ready))
    {r : Except Ending Unit} {last : State}
    (h : Session.Ends (Session.analyzeTask (Arguments.analysisValues path)) ready r last) :
    Session.Ends (Session.program (analysisCall path)) { s with } r last := by
  have hfiles := (Session.ready_of_prepare hprepare).1
  have htask : Arguments.isOptionWord (Text.ofString "task") = false := by decide
  have hanalyze : Arguments.isOptionWord (Text.ofString "analyze") = false := by decide
  have hchoice := Session.gives_choice (s := { s with }) (c := Command.program)
    (List.cons_ne_nil _ _)
    (Arguments.read_program hanalyze [Text.ofString "task", path]) rfl
  have hgroup := Session.gives_choice (s := ready) (c := Command.analyze) (List.cons_ne_nil _ _)
    (Arguments.read_analyze htask [path]) rfl
  have hoptions := Session.gives_options (s := ready) (c := Command.analyzeTask)
    (hfiles ▸ Arguments.read_path hword hfile)
  exact hchoice.bind (Session.Gives.bind hprepare (hgroup.bind (hoptions.bind h)))

theorem isAnalysisOf_run (hword : Arguments.isOptionWord path = false)
    (hfile : s.files.locate (Path.ofText path) = .ok (.file place text))
    (hprepare : (Session.prepare Arguments.standardValues).run { s with } = (.ok p, ready))
    (hdebug : ready.environment.lookup (Text.ofString "PIPEDASH_DEBUG")
      ≠ some (Text.ofString "1")) :
    IsAnalysisOf (Session.scriptOf s.files path text.unifyLineEnds)
      (run (analysisCall path) s).1 := by
  obtain ⟨hfiles, hprinted⟩ := Session.ready_of_prepare hprepare
  have hread : ready.files.read (Path.ofText path) = .ok text.unifyLineEnds := by
    rw [hfiles, FileTree.read, hfile]
  have hends := Session.ends_analyzeTask hread hdebug
  have hprogram : ∀ {r last}, Session.Ends
      (Session.analyzeTask (Arguments.analysisValues path)) ready r last →
      Session.Ends (Session.program (analysisCall path)) { s with } r last :=
    Session.ends_analysisCall hword hfile hprepare
  rw [hfiles, hprinted] at hends
  cases hanalyze : analyzeTask (Session.scriptOf s.files path text.unifyLineEnds) with
  | ok c =>
      rw [hanalyze] at hends
      obtain ⟨hout, hcode, -⟩ := run_of_ends (hprogram hends)
      obtain ⟨hexit, hfault⟩ := Prod.mk.inj hcode
      exact .printed c hanalyze hexit hfault hout
  | error e =>
      rw [hanalyze] at hends
      dsimp only at hends
      split at hends
      · rename_i hexplained
        obtain ⟨hout, hcode, -⟩ := run_of_ends (hprogram hends)
        obtain ⟨hexit, hfault⟩ := Prod.mk.inj hcode
        exact .explained e hanalyze hexplained hexit hfault hout
      · rename_i hunexplained
        obtain ⟨hout, hcode, -⟩ := run_of_ends (hprogram hends)
        obtain ⟨hexit, hfault⟩ := Prod.mk.inj hcode
        have houtcome := analyzeTask_outcome (Session.scriptOf s.files path text.unifyLineEnds)
        rw [hanalyze] at houtcome
        cases houtcome with
        | malformed e => exact absurd rfl hunexplained
        | outside name location => exact absurd rfl hunexplained
        | beyond cause => exact .beyond cause hanalyze hexit hfault (hout.trans hprinted)

end

/-- **The analysis of a script has one of its known outcomes**, and every call that analyzes the
script comes to it: beside a contract and what is explained, there is only the name of an artifact
with an escape beyond all code points. -/
theorem analysis_ends (script : Script.Source) : IsOutcome script (analyzeTask script)
    ∧ ∀ (s : Surroundings) (path text : Text) (place : List Text) (p : ProjectContext)
        (ready : State), Arguments.isOptionWord path = false →
      s.files.locate (Path.ofText path) = .ok (.file place text) →
      Session.scriptOf s.files path text.unifyLineEnds = script →
      (Session.prepare Arguments.standardValues).run { s with } = (.ok p, ready) →
      ready.environment.lookup (Text.ofString "PIPEDASH_DEBUG") ≠ some (Text.ofString "1") →
      IsAnalysisOf script (run (analysisCall path) s).1 := by
  constructor
  · exact analyzeTask_outcome script
  · rintro s path text place p ready hword hfile rfl hprepare hdebug
    exact isAnalysisOf_run hword hfile hprepare hdebug

/-- A script that names its artifact by an escape beyond all code points. -/
def beyondScript : Text :=
  Text.ofString "export const f=()=>io.readArtifact('\\u\x7b110000\x7d')"

def beyondCall : Surroundings where
  files := { entries := [([Text.ofString "t.js"], .file beyondScript)], current := [] }
  environment := []
  wire := oneReply
  now := ⟨2026, 1, 2, 3, 4, 5, 0⟩

set_option maxRecDepth 100000 in
/-- The call ends with a fault, so of its outcomes it comes to the last. -/
theorem beyondCall_ends : IsAnalysisOf
    (Session.scriptOf beyondCall.files (Text.ofString "t.js") beyondScript.unifyLineEnds)
    (run (analysisCall (Text.ofString "t.js")) beyondCall).1
      ∧ (run (analysisCall (Text.ofString "t.js")) beyondCall).1.fault.isSome = true := by
  constructor
  · exact (analysis_ends _).2 beyondCall (Text.ofString "t.js") beyondScript _ _ _ (by decide) rfl
      rfl rfl nofun
  · decide +kernel

end TaskContract.CommandLine
