import TaskContract.Proofs.Files.Repetition
import TaskContract.Proofs.Pipeline.Order
import TaskContract.Proofs.Pipeline.References

/-!
# Successful runs task by task

A run that succeeds does for each of its tasks all that there is to do. So it is known by the replies
for its tasks and by the histories of their artifacts. None of its operations on files fails, so they
can all be repeated, and what stands at a place afterwards is what has been put there last. A run
goes by the replies to its own requests: with another client that gives the same ones it is the same.
-/

namespace TaskContract

variable {σ : Type}

/-! ## Operations that succeed -/

namespace Act

def operation? : Act → Option FileOperation
  | filed op _ => some op
  | _ => none

/-- Is the act no operation that fails? -/
def isWhole : Act → Bool
  | filed _ (.error _) => false
  | _ => true

/-- The text that the act puts at a place, by where its operation leads in a tree. -/
def putAt (t : FileTree) (q : List Text) (act : Act) : Option Text :=
  act.operation?.bind fun op => FileTree.textAt q (t.putOf op)

end Act

def opsOf (acts : List Act) : List FileOperation :=
  acts.filterMap Act.operation?

theorem opsOf_append (front back : List Act) : opsOf (front ++ back) = opsOf front ++ opsOf back :=
  List.filterMap_append ..

theorem opsOf_filedAll (ops : List FileOperation) : opsOf (filedAll ops) = ops := by
  rw [opsOf, filedAll, List.filterMap_map]
  exact List.filterMap_some

theorem opsOf_asksOf (questions : List (Chat.Request × Chat.Reply)) :
    opsOf (asksOf questions) = [] :=
  List.filterMap_eq_nil_iff.mpr fun act hact => by
    obtain ⟨x, -, rfl⟩ := List.mem_map.mp hact
    rfl

theorem mem_opsOf {op : FileOperation} {result : Except FileError Unit} {acts : List Act}
    (h : .filed op result ∈ acts) : op ∈ opsOf acts :=
  List.mem_filterMap.mpr ⟨_, h, rfl⟩

def AreWhole (acts : List Act) : Prop :=
  ∀ act ∈ acts, act.isWhole = true

theorem areWhole_filedAll (ops : List FileOperation) : AreWhole (filedAll ops) := by
  intro act hact
  obtain ⟨op, -, rfl⟩ := List.mem_map.mp hact
  rfl

theorem areWhole_asksOf (questions : List (Chat.Request × Chat.Reply)) :
    AreWhole (asksOf questions) := by
  intro act hact
  obtain ⟨x, -, rfl⟩ := List.mem_map.mp hact
  rfl

namespace Performs

variable {c : Conditions σ} {start stop : FileTree × σ} {acts : List Act} {t : FileTree}

theorem leaves (h : Performs c start acts stop) (hwhole : AreWhole acts) :
    start.1.Leaves c.disk (opsOf acts) stop.1 := by
  induction acts using List.reverseRecOn generalizing stop with
  | nil =>
      obtain rfl := h.nil_inv
      exact .refl _ _
  | append_singleton front act ih =>
      obtain ⟨middle, hfront, hlast⟩ := h.append_inv
      obtain ⟨hwhole, hact⟩ := List.forall_mem_append.mp hwhole
      have hleaves := ih hfront hwhole
      rw [opsOf_append]
      cases hlast with
      | told e rest | asked answer rest =>
          obtain rfl := rest.nil_inv
          rw [show opsOf [_] = [] from rfl, List.append_nil]
          exact hleaves
      | @filed files state _ _ op result ending rest =>
          obtain rfl := rest.nil_inv
          cases result with
          | error e => cases hact _ (List.mem_singleton_self _)
          | ok u => exact hleaves.perform (Prod.ext ending rfl)

/-- What can be repeated on whatever has become of a tree is done again, and puts its texts. -/
theorem again (h : Performs c start acts stop) (hwhole : AreWhole acts)
    (hrepeats : ∀ op ∈ opsOf acts, t.Repeats c.disk op) {u : FileTree} (hu : t.Grows u) :
    Performs c (u, start.2) acts (u.overwriteAll (t.putsOf (opsOf acts)), stop.2) := by
  induction h generalizing u with
  | nil => exact .nil _
  | told e _ ih => exact .told e (ih (List.forall_mem_cons.mp hwhole).2 hrepeats hu)
  | asked answer _ ih => exact .asked answer (ih (List.forall_mem_cons.mp hwhole).2 hrepeats hu)
  | @filed files state acts stop op result ending _ ih =>
      obtain ⟨hact, hothers⟩ := List.forall_mem_cons.mp hwhole
      cases result with
      | error e => cases hact
      | ok _ =>
          obtain ⟨hop, hrest⟩ := List.forall_mem_cons.mp hrepeats
          obtain ⟨hperform, hput⟩ := hop u hu
          have hgrows := u.perform_grows op c.disk
          have hagain := ih hothers hrest (hu.trans hgrows)
          refine .filed (by rw [hperform]) ?_
          rw [hperform, hput] at hagain ⊢
          exact hagain

theorem not_cut (h : Performs c start acts stop) (ht : t.Grows start.1) {op : FileOperation}
    (hrepeats : t.Repeats c.disk op) {e : FileError} : .filed op (.error e) ∉ acts := by
  intro hmem
  obtain ⟨front, back, rfl⟩ := List.append_of_mem hmem
  obtain ⟨middle, hfront, hback⟩ := h.append_inv
  cases hback with
  | filed ending _ =>
      rw [(hrepeats _ (ht.trans hfront.grows)).1] at ending
      cases ending

end Performs

/-! ## What is put at a place last -/

theorem FileTree.lastText_append (front back : List (Option (List Text × Text))) (q : List Text) :
    lastText (front ++ back) q = (lastText back q).or (lastText front q) := by
  rw [lastText, List.reverse_append, List.findSome?_append]
  rfl

def lastPut (t : FileTree) (acts : List Act) (q : List Text) : Option Text :=
  FileTree.lastText (t.putsOf (opsOf acts)) q

section

variable {t : FileTree} {q : List Text} {acts front back : List Act}

theorem lastPut_append (t : FileTree) (front back : List Act) (q : List Text) :
    lastPut t (front ++ back) q = (lastPut t back q).or (lastPut t front q) := by
  rw [lastPut, opsOf_append, FileTree.putsOf, List.map_append]
  exact FileTree.lastText_append _ _ _

theorem lastPut_cons (t : FileTree) (act : Act) (acts : List Act) (q : List Text) :
    lastPut t (act :: acts) q = (lastPut t acts q).or (act.putAt t q) := by
  rw [← List.singleton_append, lastPut_append]
  congr 1
  cases act with
  | told e | asked r reply => rfl
  | filed op result => exact List.findSome?_singleton

theorem lastPut_eq_none (h : ∀ act ∈ acts, act.putAt t q = none) : lastPut t acts q = none := by
  induction acts with
  | nil => rfl
  | cons act rest ih =>
      obtain ⟨hact, hrest⟩ := List.forall_mem_cons.mp h
      rw [lastPut_cons, ih hrest, hact]
      rfl

theorem putAt_of_lastPut (h : lastPut t acts q = none) : ∀ act ∈ acts, act.putAt t q = none := by
  induction acts with
  | nil => exact List.forall_mem_nil _
  | cons act rest ih =>
      rw [lastPut_cons, Option.or_eq_none_iff] at h
      exact List.forall_mem_cons.mpr ⟨h.2, ih h.1⟩

/-- What one job puts at a place last is the last of all, if nothing is put there by another job
after this one has put something. -/
theorem lastPut_history {history : List (Nat × Act)} {i : Nat} {text : Text}
    (hlater : history.Pairwise fun x y =>
      x.1 = i → (x.2.putAt t q).isSome = true → y.1 ≠ i → y.2.putAt t q = none)
    (h : lastPut t (actsOf i history) q = some text) :
    lastPut t (history.map Prod.snd) q = some text := by
  induction history with
  | nil => exact h
  | cons x rest ih =>
      obtain ⟨hx, hrest⟩ := List.pairwise_cons.mp hlater
      rw [List.map_cons, lastPut_cons]
      cases hput : lastPut t (actsOf i rest) q with
      | some text' =>
          have hsame : lastPut t (actsOf i (x :: rest)) q = some text' := by
            rw [← List.singleton_append, actsOf_append, lastPut_append, hput]
            rfl
          obtain rfl := Option.some.inj (hsame.symm.trans h)
          rw [ih hrest hput]
          rfl
      | none =>
          -- so it is the first act that puts the text, and no other does
          have hself : x.1 = i := by
            by_contra hne
            rw [← List.singleton_append, actsOf_append,
              actsOf_eq_nil (List.forall_mem_singleton.mpr hne), List.nil_append, hput] at h
            cases h
          subst hself
          rw [actsOf_cons_self, lastPut_cons, hput] at h
          have hothers : lastPut t (rest.map Prod.snd) q = none := by
            refine lastPut_eq_none fun act hact => ?_
            obtain ⟨y, hy, rfl⟩ := List.mem_map.mp hact
            by_cases hself : y.1 = x.1
            · exact putAt_of_lastPut hput _ (hself ▸ mem_actsOf hy)
            · exact hx y hy rfl (by rw [show x.2.putAt t q = some text from h]; rfl) hself
          rw [hothers]
          exact h

end

/-! ## Tasks that are done -/

/-- The replies for a task, and what has been done for its artifacts. -/
structure DoneTask where
  answers : TaskAnswers
  history : List (Nat × Act)

namespace DoneTask

section

variable (c : Conditions σ) (l : PipelineLocation) (known : List Text) (total tasks index : Nat)
  (x : DoneTask)

def task : TaskWork :=
  x.answers.work

def begun : List Act :=
  filedAll [.makeRoom (l.configDir / "analysis"), contractWrite c l x.task]
    ++ asksOf (x.answers.resolutions c known)

def acts : List Act :=
  x.begun c l known ++ x.history.map Prod.snd

def course : List Act :=
  .told (.taskStart ⟨x.task.task, index, tasks⟩)
    :: (x.acts c l known ++ [Act.told (.taskComplete ⟨x.task.task, index, tasks⟩
      ((x.answers.adoptedReads c).map (·.fileName))
      ((x.answers.adoptedWrites c).map (·.fileName)))])

/-- All artifacts of the task have been gathered without a failure. -/
structure IsDone : Prop where
  resolved : x.answers.IsResolved
  contract : contractWork c l x.task
    = .ok [.makeRoom (l.configDir / "analysis"), contractWrite c l x.task]
  gathered : ∃ vs, Gathered c (x.answers.jobs c l total) (artifactAt (x.answers.artifacts c))
    x.history x.answers.schemas (.ok vs)

def courses : (index : Nat) → List DoneTask → List Act
  | _, [] => []
  | index, x :: rest => x.course c l known tasks index ++ courses (index + 1) rest

end

section

variable {c : Conditions σ} {l : PipelineLocation} {known : List Text} {total tasks index : Nat}
  {x : DoneTask}

theorem courses_append (earlier later : List DoneTask) :
    courses c l known tasks index (earlier ++ later)
      = courses c l known tasks index earlier
        ++ courses c l known tasks (index + earlier.length) later := by
  induction earlier generalizing index with
  | nil => rfl
  | cons x rest ih =>
      rw [List.cons_append, courses, courses, ih, List.append_assoc, List.length_cons,
        Nat.add_right_comm, Nat.add_assoc]

theorem course_subset_courses (known : List Text) (tasks index : Nat) {xs : List DoneTask}
    (hx : x ∈ xs) :
    ∃ i, x.course c l known tasks i ⊆ courses c l known tasks index xs := by
  obtain ⟨earlier, later, rfl⟩ := List.append_of_mem hx
  rw [courses_append]
  exact ⟨_, List.subset_append_of_subset_right _ (List.subset_append_left _ _)⟩

theorem acts_subset_course : x.acts c l known ⊆ x.course c l known tasks index :=
  List.subset_cons_of_subset _ (List.subset_append_left _ _)

theorem IsDone.course (h : x.IsDone c l total) {i : Nat} {a : ArtifactWrite}
    (ha : (x.answers.artifacts c)[i]? = some a) :
    ∃ reply, x.answers.schemas[i]? = some reply
      ∧ DeducesSchema c l x.task total i a reply (actsOf i x.history) := by
  obtain ⟨vs, hgathered⟩ := h.gathered
  have hdone := hgathered.done vs rfl
  have hi : i < x.answers.schemas.length := by
    rw [hdone.length, x.answers.length_jobs]
    exact (List.getElem?_eq_some_iff.mp ha).1
  exact ⟨_, List.getElem?_eq_getElem hi, deduces_of_allDone hdone ha (List.getElem?_eq_getElem hi)⟩

theorem IsDone.exists_artifact (h : x.IsDone c l total) {y : Nat × Act} (hy : y ∈ x.history) :
    ∃ a, (x.answers.artifacts c)[y.1]? = some a := by
  obtain ⟨vs, hgathered⟩ := h.gathered
  have hjobs : (x.answers.jobs c l total).length = (x.answers.artifacts c).length :=
    x.answers.length_jobs
  have hlt : y.1 < (x.answers.artifacts c).length := by
    rw [← hjobs, ← (hgathered.done vs rfl).length]
    exact hgathered.known y hy
  exact ⟨_, List.getElem?_eq_getElem hlt⟩

theorem opsOf_deduces {i : Nat} {a : ArtifactWrite} {reply : Chat.Reply} {acts : List Act}
    (h : DeducesSchema c l x.task total i a reply acts) :
    ∃ d ops, reply.schema a.fileName = .ok d ∧ schemaWork c.now l a.fileName d = .ok ops
      ∧ opsOf acts = ops := by
  cases h with
  | @stored d ops schema work =>
      refine ⟨d, ops, schema, work, ?_⟩
      rw [opsOf_append, opsOf_append, opsOf_filedAll, show opsOf (askedFor _ _ _ _ _ _) = [] from rfl,
        List.nil_append, show opsOf [_] = [] from rfl, List.append_nil]

theorem IsDone.of_mem_opsOf (h : x.IsDone c l total) {op : FileOperation}
    (hop : op ∈ opsOf (x.history.map Prod.snd)) : ∃ i a d ops,
      (x.answers.artifacts c)[i]? = some a ∧ schemaWork c.now l a.fileName d = .ok ops ∧ op ∈ ops
        ∧ op ∈ opsOf (actsOf i x.history) := by
  obtain ⟨act, hact, hact'⟩ := List.mem_filterMap.mp hop
  obtain ⟨y, hy, rfl⟩ := List.mem_map.mp hact
  obtain ⟨a, ha⟩ := h.exists_artifact hy
  obtain ⟨reply, -, hcourse⟩ := h.course ha
  obtain ⟨d, ops, -, hwork, hops⟩ := opsOf_deduces hcourse
  have hmem : op ∈ opsOf (actsOf y.1 x.history) := List.mem_filterMap.mpr ⟨_, mem_actsOf hy, hact'⟩
  exact ⟨y.1, a, d, ops, ha, hwork, hops ▸ hmem, hmem⟩

theorem IsDone.areWhole (h : x.IsDone c l total) : AreWhole (x.acts c l known) := by
  refine List.forall_mem_append.mpr ⟨List.forall_mem_append.mpr
    ⟨areWhole_filedAll _, areWhole_asksOf _⟩, ?_⟩
  intro act hact
  obtain ⟨y, hy, rfl⟩ := List.mem_map.mp hact
  obtain ⟨a, ha⟩ := h.exists_artifact hy
  obtain ⟨reply, -, hcourse⟩ := h.course ha
  have hmem := mem_actsOf hy
  generalize actsOf y.1 x.history = acts at hcourse hmem
  cases hcourse with
  | stored _ _ =>
      rcases List.mem_append.mp hmem with hmem | hmem
      · rcases List.mem_cons.mp hmem with hact | hmem
        · rw [hact]
          rfl
        · rw [List.mem_singleton.mp hmem]
          rfl
      · rcases List.mem_append.mp hmem with hmem | hmem
        · exact areWhole_filedAll _ _ hmem
        · rw [List.mem_singleton.mp hmem]
          rfl

theorem areWhole_courses {xs : List DoneTask} (h : ∀ x ∈ xs, x.IsDone c l total) :
    AreWhole (courses c l known tasks index xs) := by
  induction xs generalizing index with
  | nil => exact List.forall_mem_nil _
  | cons x rest ih =>
      obtain ⟨hx, hrest⟩ := List.forall_mem_cons.mp h
      refine List.forall_mem_append.mpr ⟨?_, ih hrest⟩
      refine List.forall_mem_cons.mpr ⟨rfl, List.forall_mem_append.mpr ⟨hx.areWhole, ?_⟩⟩
      exact List.forall_mem_singleton.mpr rfl

end

end DoneTask

structure AreDone (c : Conditions σ) (l : PipelineLocation) (total : Nat) (work : List TaskWork)
    (xs : List DoneTask) : Prop where
  tasks : xs.map DoneTask.task = work
  done : ∀ x ∈ xs, x.IsDone c l total

section

variable {c : Conditions σ} {l : PipelineLocation} {known : List Text} {total tasks index : Nat}

theorem TaskCourse.done_task {t : TaskWork} {count : Nat} {reads writes : List Text} {acts : List Act}
    (h : TaskCourse c l known total t (.ok (count, reads, writes)) acts) :
    ∃ x : DoneTask, x.task = t ∧ x.IsDone c l total ∧ acts = x.acts c l known
      ∧ (count, reads, writes) = x.answers.result c := by
  obtain ⟨b, ops, history, vs, rfl, resolved, work, gathered, hresult, rfl⟩ := h.of_ok
  obtain rfl := contractWork_eq work
  exact ⟨⟨b, history⟩, rfl, ⟨resolved, work, vs, gathered⟩, rfl, hresult.symm⟩

theorem TasksCourse.done_tasks {work : List TaskWork} {count : Nat} {acts : List Act}
    (h : TasksCourse c l known total tasks index work (.ok count) acts) :
    ∃ xs, AreDone c l total work xs ∧ acts = DoneTask.courses c l known tasks index xs := by
  generalize hr : Except.ok count = r at h
  induction h generalizing count with
  | nil => exact ⟨[], ⟨rfl, List.forall_mem_nil _⟩, rfl⟩
  | unbegun _ | failed _ | unclosed _ _ => cases hr
  | @cons index n reads writes t rest r acts later begun course closed others ih =>
      cases r with
      | error e => cases hr
      | ok m =>
          obtain rfl := Except.ok.inj hr
          obtain ⟨xs, hxs, rfl⟩ := ih rfl
          obtain ⟨x, rfl, hx, rfl, hresult⟩ := course.done_task
          obtain ⟨rfl, hnames⟩ := Prod.mk.inj hresult
          obtain ⟨rfl, rfl⟩ := Prod.mk.inj hnames
          refine ⟨x :: xs, ⟨?_, List.forall_mem_cons.mpr ⟨hx, hxs.done⟩⟩, ?_⟩
          · rw [List.map_cons, hxs.tasks]
          · rw [DoneTask.courses, DoneTask.course, List.cons_append, List.append_assoc]
            rfl

end

/-! ## Whole runs -/

def runActs (c : Conditions σ) (l : PipelineLocation) (work : List TaskWork) (s : Summary)
    (xs : List DoneTask) : List Act :=
  .told (.started l.slug work.length (Run.artifactCount work))
    :: (DoneTask.courses c l (Run.knownArtifacts work) work.length 0 xs ++ [Act.told (.complete s)])

theorem opsOf_runActs {c : Conditions σ} {l : PipelineLocation} {work : List TaskWork} {s : Summary}
    {xs : List DoneTask} : opsOf (runActs c l work s xs)
      = opsOf (DoneTask.courses c l (Run.knownArtifacts work) work.length 0 xs) := by
  show opsOf (DoneTask.courses c l _ _ 0 xs ++ [Act.told _]) = _
  rw [opsOf_append]
  exact List.append_nil _

/-- A run has succeeded, by what it has done for its tasks. -/
structure SucceededBy (c : Conditions σ) (l : PipelineLocation) (w w' : World σ) (s : Summary)
    (work : List TaskWork) (xs : List DoneTask) : Prop where
  succeeded : Succeeded c l w w' s work (runActs c l work s xs)
  tasks : AreDone c l (Run.artifactCount work) work xs

theorem AreDone.areWhole {c : Conditions σ} {l : PipelineLocation} {s : Summary} {total : Nat}
    {work : List TaskWork} {xs : List DoneTask} (h : AreDone c l total work xs) :
    AreWhole (runActs c l work s xs) :=
  List.forall_mem_cons.mpr ⟨rfl, List.forall_mem_append.mpr
    ⟨DoneTask.areWhole_courses h.done, List.forall_mem_singleton.mpr rfl⟩⟩

theorem RunCourse.done_tasks {c : Conditions σ} {l : PipelineLocation} {s : Summary}
    {work : List TaskWork} {acts : List Act} (h : RunCourse c l work (.ok s) acts) :
    ∃ xs, AreDone c l (Run.artifactCount work) work xs ∧ acts = runActs c l work s xs := by
  generalize hr : Except.ok s = r at h
  cases h with
  | unbegun _ | failed _ | unclosed _ _ => cases hr
  | done _ course _ =>
      obtain rfl := Except.ok.inj hr
      obtain ⟨xs, hxs, rfl⟩ := course.done_tasks
      exact ⟨xs, hxs, rfl⟩

/-- A run that succeeds has done all its tasks. -/
theorem succeededBy_of_ok {c : Conditions σ} {l : PipelineLocation} {w w' : World σ} {s : Summary}
    (h : analyzePipeline c l w = (.ok s, w')) : ∃ work xs, SucceededBy c l w w' s work xs := by
  obtain ⟨work, acts, hsucceeded⟩ := succeeded_of_ok h
  obtain ⟨xs, hxs, rfl⟩ := hsucceeded.course.done_tasks
  exact ⟨work, xs, hsucceeded, hxs⟩

section

variable {c : Conditions σ} {l : PipelineLocation} {w w' : World σ} {s : Summary}
  {work : List TaskWork} {xs : List DoneTask}

theorem SucceededBy.leaves (h : SucceededBy c l w w' s work xs) :
    w.files.Leaves c.disk (opsOf (runActs c l work s xs)) w'.files :=
  h.succeeded.passes.performs.leaves h.tasks.areWhole

end

/-! ## Other clients -/

namespace Gathering

section

variable {α : Type} {c : Conditions σ} {client : Chat.Client σ}

theorem queue_receive (g : Gathering σ α) (i : Nat) (job : Job α) (reply : Chat.Reply) :
    (g.receive i job reply).queue = g.queue := by
  rw [receive_eq]
  dsimp only
  split <;> rfl

theorem queue_work (g : Gathering σ α) (i : Nat) (p : Phase α) : (g.work c i p).queue = g.queue := by
  unfold work
  split <;> rfl

theorem queue_leave (g : Gathering σ α) (i : Nat) (p : Phase α) :
    (g.leave c i p).queue = g.queue := by
  unfold leave
  split
  · dsimp only
    split <;> rfl
  · rfl
  · rfl
  · rfl

theorem queue_begin_subset (g : Gathering σ α) : (g.begin c).queue ⊆ g.queue := by
  unfold Gathering.begin
  split
  · exact List.Subset.refl _
  · rename_i hqueue
    rw [hqueue]
    dsimp only
    split
    · exact List.subset_cons_self _ _
    · split <;> exact List.subset_cons_self _ _

/-- No job gets into the queue. -/
theorem queue_step_subset (g : Gathering σ α) (m : Move) : (g.step c m).queue ⊆ g.queue := by
  cases m with
  | begin => exact queue_begin_subset g
  | cancel => exact List.nil_subset _
  | receive i =>
      rw [step]
      split
      · rw [queue_receive]
        exact List.Subset.refl _
      · exact List.Subset.refl _
  | enter i =>
      rw [step]
      split <;> exact List.Subset.refl _
  | work i | leave i =>
      cases hfound : g.begun[i]? with
      | none => rw [step, hfound]; exact List.Subset.refl _
      | some p =>
          first
            | rw [step_work hfound, queue_work]
            | rw [step_leave hfound, queue_leave]
          exact List.Subset.refl _

/-- Only a job that begins asks something. -/
theorem step_congr {g : Gathering σ α}
    (h : ∀ job ∈ g.queue, client job.request = c.client job.request) (m : Move) :
    g.step { c with client } m = g.step c m := by
  cases m with
  | begin =>
      rw [step, step, Gathering.begin, Gathering.begin]
      split
      · rfl
      · rename_i job queue hqueue
        have hjob := h job (hqueue ▸ List.mem_cons_self)
        have hask : ∀ world : World σ,
            world.ask { c with client } job.request = world.ask c job.request := by
          intro world
          rw [World.ask, World.ask, ← hjob]
        simp only [hask]
  | receive i | enter i | work i | leave i | cancel => rfl

theorem run_congr {fuel : Nat} {g : Gathering σ α}
    (h : ∀ job ∈ g.queue, client job.request = c.client job.request) :
    run { c with client } fuel g = run c fuel g := by
  induction fuel generalizing g with
  | zero => rfl
  | succ fuel ih =>
      have hmoves : g.moves { c with client } = g.moves c := rfl
      rw [run, run, hmoves]
      dsimp only
      split
      · rfl
      · rename_i m _
        have hstep := step_congr (g := g.inWorld g.world) h m
        refine (congrArg (run { c with client } fuel) hstep).trans (ih fun job hjob => ?_)
        exact h job (queue_step_subset (g.inWorld g.world) m hjob)

end

end Gathering

namespace Run

theorem gather_congr {α : Type} {c : Conditions σ} {client : Chat.Client σ} {jobs : List (Job α)}
    (h : ∀ job ∈ jobs, client job.request = c.client job.request) :
    gather { c with client } jobs = gather c jobs := by
  funext w
  rw [gather, gather, Gathering.run_congr h]

theorem file_congr {c : Conditions σ} {client : Chat.Client σ} (fail : FileError → Trouble)
    (ops : List FileOperation) : file { c with client } fail ops = file c fail ops := by
  induction ops with
  | nil => rfl
  | cons op rest ih =>
      rw [file, file, ih]
      rfl

theorem storeContract_congr {c : Conditions σ} {client : Chat.Client σ} (l : PipelineLocation)
    (t : TaskWork) : storeContract { c with client } l t = storeContract c l t := by
  simp only [storeContract, file_congr]
  rfl

section

variable {c : Conditions σ} {client : Chat.Client σ} {t : TaskWork}
  (hresolved : t.contract.unresolvedReads = [] ∧ t.contract.unresolvedWrites = [])
  (hsame : ∀ a ∈ t.contract.writes,
    client (deductionRequest c.model t.code a) = c.client (deductionRequest c.model t.code a))

include hresolved hsame in
/-- What is done for a task without computed names goes by the replies to its deductions. -/
theorem processTask_congr (l : PipelineLocation) (known : List Text) (total : Nat) :
    processTask { c with client } l known total t = processTask c l known total t := by
  obtain ⟨hreads, hwrites⟩ := hresolved
  have hnone : ∀ c : Conditions σ, resolveAll c t known [] = pure [] := fun _ => rfl
  have hjobs : ∀ artifacts : List ArtifactWrite, (∀ a ∈ artifacts, a ∈ t.contract.writes) →
      gather { c with client } (artifactJobs { c with client } l t total artifacts)
        = gather c (artifactJobs c l t total artifacts) := by
    intro artifacts hartifacts
    refine gather_congr (List.forall_mem_map.mpr fun x hx => ?_)
    exact hsame x.1 (hartifacts x.1 (List.fst_mem_of_mem_zipIdx hx))
  simp only [processTask, hreads, hwrites, hnone, pure_bind, List.append_nil]
  have hartifacts := hjobs (t.contract.writes.filter fun a => isJsonArtifact a.fileName) fun a ha =>
    List.mem_of_mem_filter ha
  simp only [hartifacts, storeContract_congr]

end

section

variable {c : Conditions σ} {client : Chat.Client σ} {work : List TaskWork}
  (hresolved : ∀ t ∈ work,
    t.contract.unresolvedReads = [] ∧ t.contract.unresolvedWrites = [])
  (hsame : ∀ t ∈ work, ∀ a ∈ t.contract.writes,
    client (deductionRequest c.model t.code a) = c.client (deductionRequest c.model t.code a))

include hresolved hsame

theorem processTasks_congr (l : PipelineLocation) (known : List Text) (total tasks index : Nat) :
    processTasks { c with client } l known total tasks index work
      = processTasks c l known total tasks index work := by
  induction work generalizing index with
  | nil => rfl
  | cons t rest ih =>
      obtain ⟨hresolved, hrest⟩ := List.forall_mem_cons.mp hresolved
      obtain ⟨hsame, hsameRest⟩ := List.forall_mem_cons.mp hsame
      simp only [processTasks, processTask_congr hresolved hsame, ih hrest hsameRest]
      rfl

theorem perform_congr (l : PipelineLocation) :
    perform { c with client } l work = perform c l work := by
  simp only [perform, processTasks_congr hresolved hsame]
  rfl

end

end Run

/-- **A run goes by the replies to its own requests.** Where no names are computed, a run with
another client that replies to its deductions in the same way is the same. -/
theorem analyzePipeline_congr {c : Conditions σ} {client : Chat.Client σ} {l : PipelineLocation}
    {w : World σ} {work : List TaskWork} (hprepared : Run.prepared l w.files = .ok work)
    (hresolved : ∀ t ∈ work,
      t.contract.unresolvedReads = [] ∧ t.contract.unresolvedWrites = [])
    (hsame : ∀ t ∈ work, ∀ a ∈ t.contract.writes,
      client (deductionRequest c.model t.code a) = c.client (deductionRequest c.model t.code a)) :
    analyzePipeline { c with client } l w = analyzePipeline c l w := by
  have hreported : ∀ v : World σ, v.files = w.files →
      (Run.reported { c with client } l).run v = (Run.reported c l).run v := by
    intro v hv
    have hready := hv ▸ hprepared
    rw [Run.run_reported, Run.run_reported, Run.run_body_of_ok _ hready, Run.run_body_of_ok c hready,
      Run.perform_congr hresolved hsame]
    rfl
  rw [analyzePipeline, analyzePipeline]
  simp only [hreported]

end TaskContract
