import TaskContract.Proofs.Files.Lookup
import TaskContract.Proofs.Pipeline.Trace

/-!
# How a run fails

With an observer that does not fail, a run on a pipeline with a valid slug gives a summary, is
refused for the lock, or fails by one of its steps, and a step on a task names that task. There is
one failure that no step accounts for: the script of a listed task is not even looked up if its
path is too long.
-/

namespace TaskContract

theorem PipelineLocation.script_eq_error {l : PipelineLocation} {files : FileTree} {task : Text}
    {e : FileError} (h : l.script files task = .error e) : e.fault = .nameTooLong := by
  rcases bind_eq_error_iff.mp h with h | ⟨isFlat, _, h⟩
  · exact FileTree.pathExists_eq_error h
  · split at h
    · cases h
    · rcases bind_eq_error_iff.mp h with h | ⟨isNested, _, h⟩
      · exact FileTree.pathExists_eq_error h
      · split at h <;> cases h

/-! ## Failures of the steps -/

def Names (e : Trouble) (task : Text) : Prop :=
  ∃ cause, e = .step cause ∧ cause.task? = some task

section

variable {σ : Type} {c : Conditions σ} {l : PipelineLocation} {known : List Text}
  {total tasks index : Nat} {t : TaskWork} {work : List TaskWork} {acts : List Act} {e : Trouble}

theorem StoresContract.fails (h : StoresContract c l t (.error e) acts) : Names e t.task := by
  cases h with
  | unfit _ => exact ⟨_, rfl, rfl⟩
  | files _ files =>
      cases files with
      | upTo _ cause => exact ⟨_, rfl, rfl⟩

theorem not_refused (hsilent : ∀ e, c.observer e = none) {event : Event} {m : Text} :
    c.observer event ≠ some m := by
  rw [hsilent]
  nofun

theorem fault_artifactJob (hsilent : ∀ e, c.observer e = none) {i : Nat} {a : ArtifactWrite}
    {reply : Chat.Reply} (h : Fault c (artifactJob c l t total i a) reply acts e) :
    Names e t.task := by
  cases h with
  | refused _ _ => exact ⟨_, rfl, rfl⟩
  | failure conclusion =>
      cases hschema : reply.schema a.fileName with
      | error cause =>
          rw [conclusion_of_error hschema] at conclusion
          obtain rfl := Conclusion.failure.inj conclusion
          exact ⟨_, rfl, rfl⟩
      | ok d =>
          rw [conclusion_of_ok hschema] at conclusion
          cases conclusion
  | work conclusion _ | cut conclusion _ _ =>
      obtain ⟨d, -, rfl⟩ := conclusion_eq_filing conclusion
      exact ⟨_, rfl, rfl⟩
  | closing _ _ refusal => exact (not_refused hsilent refusal).elim

theorem TaskCourse.fails (hsilent : ∀ e, c.observer e = none)
    (h : TaskCourse c l known total t (.error e) acts) : Names e t.task := by
  generalize hr : Except.error e = r at h
  cases h with
  | unstored store =>
      obtain rfl := Except.error.inj hr
      exact store.fails
  | @gathered b ops history r task _ _ gathered =>
      cases r with
      | ok vs => cases hr
      | error e' =>
          obtain rfl := Except.error.inj hr
          obtain ⟨i, job, reply, done, hjob, -, -, hfault⟩ := gathered.failed e rfl
          obtain ⟨a, -, rfl⟩ := getElem?_artifactJobs hjob
          subst task
          exact fault_artifactJob hsilent hfault

theorem TasksCourse.fails (hsilent : ∀ e, c.observer e = none) {r : Except Trouble Nat}
    (h : TasksCourse c l known total tasks index work r acts) (hr : r = .error e) :
    ∃ t ∈ work, Names e t.task := by
  induction h with
  | nil => cases hr
  | unbegun refusal | unclosed _ refusal => exact (not_refused hsilent refusal).elim
  | @failed index t rest e' acts course =>
      obtain rfl := Except.error.inj hr
      exact ⟨t, List.mem_cons_self, course.fails hsilent⟩
  | @cons index count reads writes t rest r acts later _ _ _ _ ih =>
      cases r with
      | ok count => cases hr
      | error e' =>
          obtain rfl := Except.error.inj hr
          obtain ⟨t', ht', hnames⟩ := ih rfl
          exact ⟨t', List.mem_cons_of_mem t ht', hnames⟩

theorem RunCourse.fails (hsilent : ∀ e, c.observer e = none)
    (h : RunCourse c l work (.error e) acts) : ∃ t ∈ work, Names e t.task := by
  cases h with
  | unbegun refusal | unclosed _ refusal => exact (not_refused hsilent refusal).elim
  | failed course => exact course.fails hsilent rfl

end

/-! ## The first task that is unfit -/

/-- The tasks before one of the list can be worked on, and that one cannot. -/
structure FirstUnfit (l : PipelineLocation) (files : FileTree) (task : Text) (e : Trouble) :
    Prop where
  listed : ∃ before after, l.tasks files = .ok (before ++ task :: after)
    ∧ ∀ t ∈ before, ∃ work, l.readTask files t = .ok work
  unfit : l.readTask files task = .error e

/-- A task that cannot be worked on is named by the failure, unless its script cannot even be looked
for. -/
theorem PipelineLocation.readTask_eq_error {l : PipelineLocation} {files : FileTree} {task : Text}
    {e : Trouble} (h : l.readTask files task = .error e) :
    (∃ cause, e = .step (.analysis task cause))
      ∨ ∃ cause, e = .file cause ∧ l.script files task = .error cause
        ∧ cause.fault = .nameTooLong := by
  unfold readTask at h
  split at h
  · rename_i cause hscript
    exact Or.inr ⟨cause, (Except.error.inj h).symm, hscript, script_eq_error hscript⟩
  · split at h
    · exact Or.inl ⟨_, (Except.error.inj h).symm⟩
    · split at h
      · exact Or.inl ⟨_, (Except.error.inj h).symm⟩
      · cases h

theorem Run.prepared_eq_error {l : PipelineLocation} {files : FileTree} {e : Trouble}
    (h : prepared l files = .error e) :
    (∃ cause, l.tasks files = .error cause ∧ e = .step (.list cause))
      ∨ ∃ task, FirstUnfit l files task e := by
  unfold prepared at h
  cases htasks : l.tasks files with
  | error cause =>
      rw [htasks] at h
      exact Or.inl ⟨cause, rfl, (Except.error.inj h).symm⟩
  | ok ids =>
      rw [htasks] at h
      obtain ⟨before, task, after, rfl, hbefore, htask⟩ := mapM_eq_error_iff.mp h
      exact Or.inr ⟨task, ⟨before, after, htasks, hbefore⟩, htask⟩

theorem FirstUnfit.prepared {l : PipelineLocation} {files : FileTree} {task : Text} {e : Trouble}
    (h : FirstUnfit l files task e) : Run.prepared l files = .error e := by
  obtain ⟨before, after, htasks, hbefore⟩ := h.listed
  rw [Run.prepared, htasks]
  exact mapM_eq_error_iff.mpr ⟨before, task, after, rfl, hbefore, h.unfit⟩

/-! ## What a run comes to -/

inductive IsRunOutcome {σ : Type} (l : PipelineLocation) (w : World σ) :
    Except RunError Summary → Prop where
  | finished (s : Summary) : IsRunOutcome l w (.ok s)
  | locked (holder : Text) (held : w.lock.holder = some holder) :
      IsRunOutcome l w (.error (.locked l.slug holder))
  | list (e : TaskListError) (unusable : l.tasks w.files = .error e) :
      IsRunOutcome l w (.error (.trouble (.step (.list e))))
  | task (e : StepError) {ids : List Text} {id : Text} (listed : l.tasks w.files = .ok ids)
      (mem : id ∈ ids) (named : e.task? = some id) :
      IsRunOutcome l w (.error (.trouble (.step e)))
  | unlocated (e : FileError) {id : Text} (unfit : FirstUnfit l w.files id (.file e))
      (notLocated : l.script w.files id = .error e) (tooLong : e.fault = .nameTooLong) :
      IsRunOutcome l w (.error (.trouble (.file e)))

section

variable {σ : Type} {c : Conditions σ} {l : PipelineLocation} {w : World σ}

/-- A run with the lock has a summary, or fails by a step or for a script that is not looked for. -/
theorem isRunOutcome_of_acquires (hsilent : ∀ e, c.observer e = none) (hlock : AcquiresLock l w) :
    IsRunOutcome l w (analyzePipeline c l w).1 := by
  obtain ⟨r, acts, hresult, -, hcourse⟩ := analyzePipeline_course (c := c) hlock
  rw [hresult]
  cases hcourse with
  | @early e hprepared =>
      rw [e.reportedTo_of_silent hsilent]
      rcases Run.prepared_eq_error hprepared with ⟨cause, htasks, rfl⟩ | ⟨task, hunfit⟩
      · exact .list cause htasks
      · rcases PipelineLocation.readTask_eq_error hunfit.unfit with
          ⟨cause, rfl⟩ | ⟨cause, rfl, hscript, hlong⟩
        · obtain ⟨before, after, htasks, -⟩ := hunfit.listed
          exact .task _ htasks (List.mem_append_right _ List.mem_cons_self) rfl
        · exact .unlocated cause hunfit hscript hlong
  | @succeeded work s _ _ _ => exact .finished s
  | @failed work e acts hprepared course =>
      rw [e.reportedTo_of_silent hsilent]
      obtain ⟨t, ht, cause, rfl, hnamed⟩ := course.fails hsilent
      exact .task cause (Run.prepared_spec hprepared) (List.mem_map_of_mem ht) hnamed

/-- A run without the lock is told who holds it. -/
theorem isRunOutcome_of_not_acquires (hslug : Slug.isValid l.slug = true)
    (hlock : ¬ AcquiresLock l w) : IsRunOutcome l w (analyzePipeline c l w).1 := by
  have hnonempty : ¬ l.slug.isEmpty = true := by
    intro hempty
    rw [List.isEmpty_iff.mp hempty] at hslug
    cases hslug
  rw [analyzePipeline, hslug]
  cases hholder : w.lock.holder with
  | none =>
      refine absurd ⟨hslug, ?_⟩ hlock
      rw [Lock.acquire, if_neg hnonempty, hholder]
  | some holder =>
      have hacquire : w.lock.acquire l.slug = (.ok (.refused holder), w.lock) := by
        rw [Lock.acquire, if_neg hnonempty, hholder]
      rw [hacquire]
      exact .locked holder hholder

end

/-- **How a run ends.** With an observer that does not fail, a run on a pipeline with a valid slug
has one of its known outcomes. If it gets the lock and one of its tasks is unfit, it fails for the
first such task, is told to the observer, and changes nothing; and it names the task unless the path
of the script is too long to be looked up. -/
theorem run_outcome {σ : Type} (c : Conditions σ) (hsilent : ∀ e, c.observer e = none)
    (l : PipelineLocation) (w : World σ) (hslug : Slug.isValid l.slug = true) :
    IsRunOutcome l w (analyzePipeline c l w).1
      ∧ ∀ task trouble, AcquiresLock l w → FirstUnfit l w.files task trouble →
        analyzePipeline c l w
            = (.error (.trouble trouble), { w with events := trouble.event :: w.events })
          ∧ ((∃ cause, trouble = .step (.analysis task cause)
              ∧ trouble.event = .error trouble.message (some task) none)
            ∨ ∃ cause, trouble = .file cause ∧ l.script w.files task = .error cause
              ∧ cause.fault = .nameTooLong) := by
  constructor
  · by_cases hlock : AcquiresLock l w
    · exact isRunOutcome_of_acquires hsilent hlock
    · exact isRunOutcome_of_not_acquires hslug hlock
  · intro task trouble hlock hunfit
    constructor
    · have hfree : w.lock = {} := (Lock.acquire_eq_acquired hlock.acquired).2.1
      have hbody : (Run.body c l).run (w.held l.slug) = (.error trouble, w.held l.slug) :=
        Run.run_body_of_error c hunfit.prepared
      have hreported := Run.run_reported_of_error hbody
      rw [trouble.reportedTo_of_silent hsilent] at hreported
      rw [analyzePipeline_of_acquires hlock (by rw [hreported]; rfl), hreported]
      rfl
    · rcases PipelineLocation.readTask_eq_error hunfit.unfit with ⟨cause, rfl⟩ | hlong
      · exact Or.inl ⟨cause, rfl, rfl⟩
      · exact Or.inr hlong

def longTaskName : Text :=
  List.replicate 300 (CodePoint.ofChar 'a')

def longTask : FileTree :=
  { entries := [([Text.ofString "p"], .directory),
      ([Text.ofString "p", Text.ofString "pipeline.json"],
        .file (Text.ofString "\x7b\"tasks\":[\"" ++ longTaskName ++ Text.ofString "\"]\x7d"))]
    current := [] }

set_option maxRecDepth 100000 in
theorem longTask_unfit : ∃ e, FirstUnfit flatLocation longTask longTaskName (.file e) := by
  have htasks : (flatLocation.tasks longTask).toOption = some [longTaskName] := by decide +kernel
  have hscript : (flatLocation.script longTask longTaskName).toOption = none := by decide +kernel
  obtain ⟨e, herror⟩ := eq_error_of_toOption hscript
  refine ⟨e, ⟨[], [], eq_ok_of_toOption htasks, List.forall_mem_nil _⟩, ?_⟩
  rw [PipelineLocation.readTask, herror]

theorem longTask_unnamed : ∃ e : FileError, e.fault = .nameTooLong
    ∧ analyzePipeline { client := countingClient, now := ⟨2026, 1, 2, 3, 4, 5, 0⟩ } flatLocation
        { files := longTask, client := 0 }
      = (.error (.trouble (.file e)),
        { files := longTask
          client := 0
          events := [.error (Text.ofString "Unexpected error: " ++ e.message) none none] }) := by
  obtain ⟨e, hunfit⟩ := longTask_unfit
  obtain ⟨-, hfails⟩ := run_outcome { client := countingClient, now := ⟨2026, 1, 2, 3, 4, 5, 0⟩ }
    (fun _ => rfl) flatLocation { files := longTask, client := 0 } (by decide)
  obtain ⟨hrun, hcause⟩ := hfails longTaskName (.file e) ⟨by decide, by decide⟩ hunfit
  rcases hcause with ⟨_, hstep, -⟩ | ⟨cause, hfile, -, hlong⟩
  · cases hstep
  · obtain rfl := Trouble.file.inj hfile
    exact ⟨e, hlong, hrun⟩

end TaskContract
