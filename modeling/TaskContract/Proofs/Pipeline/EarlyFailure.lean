import TaskContract.Proofs.Pipeline.Acts
import TaskContract.Proofs.Pipeline.Lock

/-!
# Failures before the first effect

A run analyzes every task before it changes anything. So a pipeline without a list of tasks, or with
one task that cannot be analyzed, has no effect but the report of its failure, however sound the
tasks in front of that one are.
-/

namespace TaskContract

open Script

/-! ## What cannot be worked on -/

inductive UnusableList (l : PipelineLocation) (files : FileTree) : Prop where
  | notRead {e : FileError} (read : files.read l.listFile = .error e)
  | notJson {text : Text} {e : Json.ReadError} (read : files.read l.listFile = .ok text)
      (json : Json.read text = .error e)
  | noTasks {text : Text} {v : Json} (read : files.read l.listFile = .ok text)
      (json : Json.read text = .ok v)
      (tasks : ∀ ids : List Text, v.get? "tasks" ≠ some (.arr (ids.map .str)))

inductive UnusableTask (l : PipelineLocation) (files : FileTree) (task : Text) : Prop where
  | notLocated {e : FileError} (script : l.script files task = .error e)
  | notRead {file : Path} {e : FileError} (script : l.script files task = .ok file)
      (read : files.read file = .error e)
  | notParsed {file : Path} {code : Text} {e : ParseError} (script : l.script files task = .ok file)
      (read : files.read file = .ok code) (parse : parse (sourceOf file code) = .error e)
  | notAnalyzed {file : Path} {code : Text} {root : Node} {e : Analysis.CallError}
      (script : l.script files task = .ok file) (read : files.read file = .ok code)
      (parse : parse (sourceOf file code) = .ok root)
      (contract : contractOf (sourceOf file code) root = .error e)

/-- Is a pipeline unfit for a run, by its list or by a task at any place of that? -/
def Unfit (l : PipelineLocation) (files : FileTree) : Prop :=
  UnusableList l files
    ∨ ∃ ids, l.tasks files = .ok ids ∧ ∃ task ∈ ids, UnusableTask l files task

theorem str_of_mapM_str {items : List Json} {ids : List Text}
    (h : items.mapM Json.str? = some ids) : items = ids.map .str := by
  induction items generalizing ids with
  | nil =>
      obtain rfl := Option.some.inj h
      rfl
  | cons item rest ih =>
      rw [List.mapM_cons, Option.bind_eq_bind, Option.bind_eq_some_iff] at h
      obtain ⟨id, hid, h⟩ := h
      rw [Option.bind_eq_bind, Option.bind_eq_some_iff] at h
      obtain ⟨others, hothers, h⟩ := h
      obtain rfl := Option.some.inj h
      rw [ih hothers, List.map_cons]
      cases item <;> cases hid
      rfl

theorem UnusableList.tasks_eq_error {l : PipelineLocation} {files : FileTree}
    (h : UnusableList l files) : ∃ e, l.tasks files = .error e := by
  cases h with
  | notRead hread =>
      rw [PipelineLocation.tasks, hread]
      exact ⟨_, rfl⟩
  | @notJson text e hread hjson =>
      rw [PipelineLocation.tasks, hread]
      refine ⟨.json e, ?_⟩
      show (((Json.read text).mapError TaskListError.json) >>= _) = _
      rw [hjson]
      rfl
  | @noTasks text v hread hjson htasks =>
      rw [PipelineLocation.tasks, hread]
      refine ⟨.noList, ?_⟩
      show (((Json.read text).mapError TaskListError.json) >>= _) = _
      rw [hjson]
      cases hids : PipelineLocation.tasksOf v with
      | none =>
          dsimp only [Except.mapError, bind, Except.bind]
          rw [hids]
          rfl
      | some ids =>
          rw [PipelineLocation.tasksOf, Option.bind_eq_bind, Option.bind_eq_some_iff] at hids
          obtain ⟨items, hitems, hids⟩ := hids
          obtain ⟨value, hvalue, harr⟩ := Option.bind_eq_some_iff.mp hitems
          cases value <;> cases harr
          rw [str_of_mapM_str hids] at hvalue
          exact absurd hvalue (htasks ids)

theorem UnusableTask.readTask_eq_error {l : PipelineLocation} {files : FileTree} {task : Text}
    (h : UnusableTask l files task) : ∃ e, l.readTask files task = .error e := by
  rw [PipelineLocation.readTask]
  cases h with
  | notLocated hscript =>
      rw [hscript]
      exact ⟨_, rfl⟩
  | notRead hscript hread =>
      rw [hscript]
      dsimp only
      rw [hread]
      exact ⟨_, rfl⟩
  | notParsed hscript hread hparse =>
      rw [hscript]
      dsimp only
      rw [hread]
      dsimp only
      rw [analyzeTask, hparse]
      exact ⟨_, rfl⟩
  | notAnalyzed hscript hread hparse hcontract =>
      rw [hscript]
      dsimp only
      rw [hread]
      dsimp only
      rw [analyzeTask, hparse]
      dsimp only
      rw [hcontract]
      exact ⟨_, rfl⟩

/-! ## Runs on unfit pipelines -/

/-- What counts when the observer is told of a failure: if the observer fails, that. -/
def Trouble.reportedTo {σ : Type} (c : Conditions σ) (t : Trouble) : Trouble :=
  match c.observer t.event with
  | none => t
  | some m => .observer m

theorem Trouble.reportedTo_of_silent {σ : Type} {c : Conditions σ}
    (hsilent : ∀ e, c.observer e = none) (t : Trouble) : t.reportedTo c = t := by
  rw [reportedTo, hsilent]

namespace Run

variable {σ : Type}

theorem run_analyze (l : PipelineLocation) (task : Text) (w : World σ) :
    (analyze l task).run w = (l.readTask w.files task, w) := by
  rw [analyze, run_bind, run_get]
  dsimp only
  cases l.readTask w.files task <;> rfl

/-- The tasks are analyzed by their files alone, and the world stays as it is. -/
theorem run_mapM_analyze (l : PipelineLocation) (tasks : List Text) (w : World σ) :
    (tasks.mapM (analyze l)).run w = (tasks.mapM (l.readTask w.files), w) := by
  induction tasks with
  | nil => rfl
  | cons task rest ih =>
      rw [List.mapM_cons, List.mapM_cons, run_bind, run_analyze]
      cases l.readTask w.files task with
      | error e => rfl
      | ok t =>
          dsimp only
          rw [run_bind, ih]
          cases rest.mapM (l.readTask w.files) <;> rfl

/-- What decides before any effect whether a run fails: the list of the tasks and their scripts. -/
def prepared (l : PipelineLocation) (files : FileTree) : Except Trouble (List TaskWork) :=
  match l.tasks files with
  | .error e => .error (.step (.list e))
  | .ok tasks => tasks.mapM (l.readTask files)

theorem prepared_of_unfit {l : PipelineLocation} {files : FileTree} (h : Unfit l files) :
    ∃ e, prepared l files = .error e := by
  rw [prepared]
  rcases h with h | ⟨ids, hids, task, htask, h⟩
  · obtain ⟨e, he⟩ := h.tasks_eq_error
    rw [he]
    exact ⟨_, rfl⟩
  · rw [hids]
    cases hwork : ids.mapM (l.readTask files) with
    | error e => exact ⟨e, hwork⟩
    | ok work =>
        obtain ⟨t, ht⟩ := mapM_succeeds_iff.mp ⟨work, hwork⟩ task htask
        obtain ⟨e, he⟩ := h.readTask_eq_error
        rw [he] at ht
        cases ht

theorem run_body (c : Conditions σ) (l : PipelineLocation) (w : World σ) :
    (body c l).run w = match prepared l w.files with
      | .error e => (.error e, w)
      | .ok work => (perform c l work).run w := by
  rw [body, run_bind, run_get, prepared]
  dsimp only
  cases l.tasks w.files with
  | error e => rfl
  | ok tasks =>
      dsimp only
      rw [run_bind, run_mapM_analyze]
      cases tasks.mapM (l.readTask w.files) <;> rfl

theorem run_body_of_error (c : Conditions σ) {l : PipelineLocation} {w : World σ} {e : Trouble}
    (h : prepared l w.files = .error e) : (body c l).run w = (.error e, w) := by
  rw [run_body, h]

theorem run_body_of_ok (c : Conditions σ) {l : PipelineLocation} {w : World σ}
    {work : List TaskWork} (h : prepared l w.files = .ok work) :
    (body c l).run w = (perform c l work).run w := by
  rw [run_body, h]

/-- A failure is told of before it counts. -/
theorem run_reported (c : Conditions σ) (l : PipelineLocation) (w : World σ) :
    (reported c l).run w = match (body c l).run w with
      | (.ok s, w') => (.ok s, w')
      | (.error e, w') => (.error (e.reportedTo c), w'.tell e.event) := by
  rw [reported, run_tryCatch]
  generalize (body c l).run w = ending
  obtain ⟨result, w'⟩ := ending
  cases result with
  | ok s => rfl
  | error e =>
      dsimp only
      rw [run_bind, run_emit, Trouble.reportedTo]
      cases c.observer e.event <;> rfl

theorem run_reported_of_error {c : Conditions σ} {l : PipelineLocation} {w w' : World σ}
    {e : Trouble} (h : (body c l).run w = (.error e, w')) :
    (reported c l).run w = (.error (e.reportedTo c), w'.tell e.event) := by
  rw [run_reported, h]

end Run

theorem Trouble.event_kind (t : Trouble) : t.event.kind = "error" := by
  cases t <;> rfl

/-- **An unfit pipeline is left alone.** A run on it that gets the lock fails, and whatever the
client and the settings are, nothing of the world has changed after it but that the observer has
been told of one error: no request was made of the client, no file was touched, and the lock is
free. -/
theorem unfit_is_left_alone {σ : Type} (l : PipelineLocation) (w : World σ)
    (hunfit : Unfit l w.files) (hlock : AcquiresLock l w) :
    ∃ trouble : Trouble, trouble.event.kind = "error" ∧ w.lock.holder = none
      ∧ ∀ c : Conditions σ, (∀ e, c.observer e = none) →
        analyzePipeline c l w
          = (.error (.trouble trouble), { w with events := trouble.event :: w.events }) := by
  obtain ⟨e, he⟩ := Run.prepared_of_unfit hunfit
  have hfree : w.lock = {} := (Lock.acquire_eq_acquired hlock.acquired).2.1
  refine ⟨e, e.event_kind, by rw [hfree], ?_⟩
  intro c hsilent
  have hbody : (Run.body c l).run (w.held l.slug) = (.error e, w.held l.slug) :=
    Run.run_body_of_error c he
  have hreported := Run.run_reported_of_error hbody
  rw [e.reportedTo_of_silent hsilent] at hreported
  rw [analyzePipeline_of_acquires hlock (by rw [hreported]; rfl), hreported]
  rfl

def withoutSecondScript : FileTree :=
  { entries := [([Text.ofString "p"], .directory),
      ([Text.ofString "p", Text.ofString "pipeline.json"],
        .file (Text.ofString "\x7b\"tasks\":[\"a\",\"b\"]\x7d")),
      ([Text.ofString "p", Text.ofString "a.js"],
        .file (Text.ofString "export function f()\x7b\x7d"))]
    current := [] }

def flatLocation : PipelineLocation :=
  { slug := Text.ofString "p", configDir := Path.ofText (Text.ofString "/p")
    tasksDir := Path.ofText (Text.ofString "/p") }

def countingClient : Chat.Client Nat :=
  fun _ n => (.response (.str (Text.ofString "\x7b\x7d")), n + 1)

set_option maxRecDepth 100000 in
theorem withoutSecondScript_unfit : Unfit flatLocation withoutSecondScript := by
  have htasks : (flatLocation.tasks withoutSecondScript).toOption
      = some [Text.ofString "a", Text.ofString "b"] := by decide +kernel
  have hscript : (flatLocation.script withoutSecondScript (Text.ofString "b")).toOption
      = some (flatLocation.tasksDir / Text.ofString "b.js") := by decide +kernel
  have hread : (withoutSecondScript.read (flatLocation.tasksDir / Text.ofString "b.js")).toOption
      = none := by decide +kernel
  obtain ⟨e, herror⟩ := eq_error_of_toOption hread
  exact Or.inr ⟨_, eq_ok_of_toOption htasks, Text.ofString "b",
    List.mem_cons_of_mem _ List.mem_cons_self, .notRead (eq_ok_of_toOption hscript) herror⟩

theorem second_script_missing : ∃ trouble : Trouble,
    analyzePipeline { client := countingClient, now := ⟨2026, 1, 2, 3, 4, 5, 0⟩ } flatLocation
        { files := withoutSecondScript, client := 0 }
      = (.error (.trouble trouble),
        { files := withoutSecondScript, client := 0, events := [trouble.event] }) := by
  obtain ⟨trouble, _, _, hrun⟩ := unfit_is_left_alone flatLocation
    { files := withoutSecondScript, client := 0 } withoutSecondScript_unfit
    ⟨by decide +kernel, by decide +kernel⟩
  exact ⟨trouble, hrun _ fun _ => rfl⟩

end TaskContract
