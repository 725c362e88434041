import Mathlib.Algebra.GroupWithZero.Nat
import Mathlib.Data.List.Flatten
import TaskContract.Proofs.Pipeline.RunCourse

/-!
# The trace of a run

The events of a run form a trace: the single event of an early failure, or a start, one block of
events for each task in order, and an end. `RunTrace` is the language of these traces, and
`run_tells_trace` says that every run that gets the lock tells one of them.
-/

namespace TaskContract

/-! ## The language of traces -/

def Event.ended? : Event → Option ArtifactProgress
  | .artifactComplete p => some p
  | _ => none

def Event.ofArtifact : Event → Bool
  | .artifactStart _ | .artifactComplete _ => true
  | _ => false

/-- What is told of some artifacts, side by side. They are begun in order and numbered from zero,
each of them is complete once at most, and none before it is begun. -/
structure TellsArtifacts (artifacts : List ArtifactProgress) (told : List Event) : Prop where
  only : ∀ e ∈ told, e.ofArtifact = true
  begun : told.filterMap Event.begun? = artifacts
  numbered : artifacts.map ArtifactProgress.index = List.range artifacts.length
  ended : (told.filterMap Event.ended?).Subperm artifacts
  ordered : ∀ front p back, told = front ++ Event.artifactComplete p :: back →
    .artifactStart p ∈ front

/-- A task that has been done. Its artifacts are all complete. -/
structure Block where
  progress : TaskProgress
  artifacts : List ArtifactProgress
  told : List Event
  tells : TellsArtifacts artifacts told
  complete : (told.filterMap Event.ended?).Perm artifacts
  ofTask : ∀ p ∈ artifacts, p.task = progress.task
  resolvedReads : List Text
  resolvedWrites : List Text

def Block.events (b : Block) : List Event :=
  .taskStart b.progress
    :: (b.told ++ [Event.taskComplete b.progress b.resolvedReads b.resolvedWrites])

/-- A task at which a run has failed. -/
structure OpenBlock where
  progress : TaskProgress
  artifacts : List ArtifactProgress
  told : List Event
  tells : TellsArtifacts artifacts told
  ofTask : ∀ p ∈ artifacts, p.task = progress.task

def OpenBlock.events (b : OpenBlock) : List Event :=
  .taskStart b.progress :: b.told

/-- The progress that is told of tasks in order, which count from an index on. -/
def progressFrom (total index : Nat) (tasks : List Text) : List TaskProgress :=
  (tasks.zipIdx index).map fun (task, i) => { task, index := i, total }

theorem progressFrom_cons (total index : Nat) (task : Text) (rest : List Text) :
    progressFrom total index (task :: rest)
      = { task, index, total } :: progressFrom total (index + 1) rest :=
  rfl

def artifactsIn (blocks : List Block) : Nat :=
  (blocks.map fun b => b.artifacts.length).sum

/-- What is told while tasks are done one after another, and how many artifacts that makes. A
failure leaves one block open. -/
inductive TasksTrace (expected : List TaskProgress) : Except Trouble Nat → List Event → Prop where
  | done (blocks : List Block) (progress : blocks.map Block.progress = expected) :
      TasksTrace expected (.ok (artifactsIn blocks)) (blocks.flatMap Block.events)
  | stopped (e : Trouble) (blocks : List Block) (last : OpenBlock)
      (progress : blocks.map Block.progress ++ [last.progress] <+: expected) :
      TasksTrace expected (.error e) (blocks.flatMap Block.events ++ last.events)

/-- The traces of runs on a list of tasks, by the results of the runs. -/
inductive RunTrace (slug : Text) (tasks : Except TaskListError (List Text)) :
    Except Trouble Summary → List Event → Prop where
  | early (e : Trouble) : RunTrace slug tasks (.error e) [e.event]
  | finished {ids : List Text} (artifacts : Nat) (blocks : List Block) (listed : tasks = .ok ids)
      (progress : blocks.map Block.progress = progressFrom ids.length 0 ids) :
      RunTrace slug tasks
        (.ok { pipeline := slug, tasks := ids.length, artifacts := artifactsIn blocks })
        (.started slug ids.length artifacts :: blocks.flatMap Block.events ++ [Event.complete
          { pipeline := slug, tasks := ids.length, artifacts := artifactsIn blocks }])
  | failed {ids : List Text} (artifacts : Nat) (e : Trouble) (blocks : List Block)
      (last : OpenBlock) (listed : tasks = .ok ids)
      (progress : blocks.map Block.progress ++ [last.progress]
        <+: progressFrom ids.length 0 ids) :
      RunTrace slug tasks (.error e)
        (.started slug ids.length artifacts :: (blocks.flatMap Block.events ++ last.events)
          ++ [e.event])

/-! ## What the traces have in common -/

theorem TasksTrace.cons {b : Block} {expected : List TaskProgress} {r : Except Trouble Nat}
    {told : List Event} (h : TasksTrace expected r told) :
    TasksTrace (b.progress :: expected) (r.map (b.artifacts.length + ·)) (b.events ++ told) := by
  cases h with
  | done blocks hprogress =>
      have hdone : TasksTrace (b.progress :: expected) (.ok (artifactsIn (b :: blocks)))
          ((b :: blocks).flatMap Block.events) :=
        .done (b :: blocks) (by rw [List.map_cons, hprogress])
      rw [artifactsIn, List.map_cons, List.sum_cons, List.flatMap_cons] at hdone
      exact hdone
  | stopped e blocks last hprogress =>
      have hstopped : TasksTrace (b.progress :: expected) (.error e)
          ((b :: blocks).flatMap Block.events ++ last.events) := by
        refine .stopped e (b :: blocks) last ?_
        rw [List.map_cons, List.cons_append, List.prefix_cons_inj]
        exact hprogress
      rw [List.flatMap_cons, List.append_assoc] at hstopped
      exact hstopped

def Event.isInner : Event → Bool
  | .taskStart _ | .artifactStart _ | .artifactComplete _ | .taskComplete .. => true
  | .started .. | .complete _ | .error .. => false

/-- How a trace begins and ends. A run has one event at its end, which says whether it has failed;
it is the only one, or else the first is the start and those between are of tasks and artifacts. -/
def Outline (r : Except Trouble Summary) (told : List Event) : Prop :=
  ∃ last, last.kind = (if r.isOk then "complete" else "error")
    ∧ ((told = [last] ∧ r.isOk = false)
      ∨ ∃ first inner, told = first :: inner ++ [last] ∧ first.kind = "started"
        ∧ ∀ e ∈ inner, e.isInner = true)

theorem Event.isInner_of_ofArtifact {e : Event} (h : e.ofArtifact = true) : e.isInner = true := by
  cases e <;> first | rfl | cases h

theorem Block.events_inner (b : Block) : ∀ e ∈ b.events, e.isInner = true := by
  refine List.forall_mem_cons.mpr ⟨rfl, List.forall_mem_append.mpr ⟨?_, ?_⟩⟩
  · exact fun e he => Event.isInner_of_ofArtifact (b.tells.only e he)
  · exact List.forall_mem_singleton.mpr rfl

theorem OpenBlock.events_inner (b : OpenBlock) : ∀ e ∈ b.events, e.isInner = true :=
  List.forall_mem_cons.mpr
    ⟨rfl, fun e he => Event.isInner_of_ofArtifact (b.tells.only e he)⟩

theorem blocks_events_inner (blocks : List Block) :
    ∀ e ∈ blocks.flatMap Block.events, e.isInner = true := by
  intro e he
  obtain ⟨b, _, he⟩ := List.mem_flatMap.mp he
  exact b.events_inner e he

theorem RunTrace.outline {slug : Text} {tasks : Except TaskListError (List Text)}
    {r : Except Trouble Summary} {told : List Event} (h : RunTrace slug tasks r told) :
    Outline r told := by
  cases h with
  | early e => exact ⟨e.event, e.event_kind, Or.inl ⟨rfl, rfl⟩⟩
  | finished artifacts blocks _ _ =>
      exact ⟨_, rfl, Or.inr ⟨_, _, rfl, rfl, blocks_events_inner blocks⟩⟩
  | failed artifacts e blocks last _ _ =>
      refine ⟨_, e.event_kind, Or.inr ⟨_, _, rfl, rfl, ?_⟩⟩
      intro event hevent
      rcases List.mem_append.mp hevent with hevent | hevent
      · exact blocks_events_inner blocks event hevent
      · exact last.events_inner event hevent

def countOf (kind : String) (events : List Event) : Nat :=
  events.countP fun e => e.kind = kind

theorem countOf_cons (kind : String) (e : Event) (events : List Event) :
    countOf kind (e :: events) = countOf kind events + if e.kind = kind then 1 else 0 := by
  rw [countOf, List.countP_cons]
  simp [countOf]

theorem countOf_append (kind : String) (front back : List Event) :
    countOf kind (front ++ back) = countOf kind front + countOf kind back :=
  List.countP_append

theorem countOf_flatMap {α : Type} {kind : String} {f : α → List Event} {g : α → Nat}
    (h : ∀ x, countOf kind (f x) = g x) (xs : List α) :
    countOf kind (xs.flatMap f) = (xs.map g).sum := by
  induction xs with
  | nil => rfl
  | cons x rest ih =>
      rw [List.flatMap_cons, countOf_append, h, ih, List.map_cons, List.sum_cons]

theorem TellsArtifacts.count_tasks {artifacts : List ArtifactProgress} {told : List Event}
    (h : TellsArtifacts artifacts told) : countOf "task:complete" told = 0 := by
  refine List.countP_eq_zero.mpr fun e he hkind => ?_
  have honly := h.only e he
  cases e with
  | artifactStart p =>
      have hne : "artifact:start" ≠ "task:complete" := by decide
      exact hne (of_decide_eq_true hkind)
  | artifactComplete p =>
      have hne : "artifact:complete" ≠ "task:complete" := by decide
      exact hne (of_decide_eq_true hkind)
  | _ => cases honly

theorem countOf_ended (told : List Event) :
    countOf "artifact:complete" told = (told.filterMap Event.ended?).length := by
  induction told with
  | nil => rfl
  | cons e rest ih =>
      rw [countOf_cons, ih]
      cases e <;> rfl

theorem Block.count_tasks (b : Block) : countOf "task:complete" b.events = 1 := by
  rw [Block.events, countOf_cons, countOf_append, b.tells.count_tasks]
  rfl

theorem Block.count_artifacts (b : Block) :
    countOf "artifact:complete" b.events = b.artifacts.length := by
  rw [Block.events, countOf_cons, countOf_append, countOf_ended, b.complete.length_eq]
  rfl

/-- The summary of a run counts the tasks and the artifacts that the trace says are complete. -/
theorem RunTrace.counts {slug : Text} {tasks : Except TaskListError (List Text)}
    {summary : Summary} {told : List Event} (h : RunTrace slug tasks (.ok summary) told) :
    summary.tasks = countOf "task:complete" told
      ∧ summary.artifacts = countOf "artifact:complete" told := by
  cases h with
  | @finished ids artifacts blocks _ hprogress =>
      have hlength : blocks.length = ids.length := by
        have hlength := congrArg List.length hprogress
        rw [progressFrom, List.length_map, List.length_map, List.length_zipIdx] at hlength
        exact hlength
      constructor
      · rw [countOf_append, countOf_cons, countOf_flatMap Block.count_tasks, List.map_const',
          List.sum_replicate_nat, Nat.mul_one, hlength]
        rfl
      · rw [countOf_append, countOf_cons, countOf_flatMap Block.count_artifacts]
        rfl

/-! ## What is told of a task -/

def TaskWork.progressOf (t : TaskWork) (total : Nat) (artifacts : List ArtifactWrite) :
    List ArtifactProgress :=
  artifacts.zipIdx.map fun x => t.progress total x.2 x.1

theorem TaskWork.getElem?_progressOf (t : TaskWork) (total : Nat) (artifacts : List ArtifactWrite)
    (i : Nat) : (t.progressOf total artifacts)[i]? = artifacts[i]?.map (t.progress total i) := by
  rw [progressOf, List.getElem?_map, List.getElem?_zipIdx, Option.map_map, Nat.zero_add]
  rfl

theorem TaskWork.index_progressOf (t : TaskWork) (total : Nat) (artifacts : List ArtifactWrite) :
    (t.progressOf total artifacts).map ArtifactProgress.index = List.range artifacts.length := by
  rw [progressOf, List.map_map, List.range_eq_range', ← List.zipIdx_map_snd 0 artifacts]
  rfl

theorem TaskWork.length_progressOf (t : TaskWork) (total : Nat) (artifacts : List ArtifactWrite) :
    (t.progressOf total artifacts).length = artifacts.length := by
  rw [progressOf, List.length_map, List.length_zipIdx]

section

variable {σ : Type} {c : Conditions σ} {l : PipelineLocation} {t : TaskWork} {total : Nat}
  {artifacts : List ArtifactWrite} {names : Nat → Text} {history : List (Nat × Act)}
  {replies : List Chat.Reply} {r : Except Trouble (List Unit)}

theorem begun_artifactJobs (n : Nat) :
    ((artifactJobs c l t total artifacts).take n).filterMap Job.begun?
      = (t.progressOf total artifacts).take n := by
  rw [artifactJobs, TaskWork.progressOf, ← List.map_take, ← List.map_take, List.filterMap_map]
  generalize artifacts.zipIdx.take n = xs
  induction xs with
  | nil => rfl
  | cons x rest ih => exact congrArg (t.progress total x.2 x.1 :: ·) ih

theorem conclusion_acts (c : Conditions σ) (l : PipelineLocation) (t : TaskWork) (total i : Nat)
    (a : ArtifactWrite) (reply : Chat.Reply) :
    ((artifactJob c l t total i a).conclusion reply).acts = []
      ∨ ∃ d ops, reply.schema a.fileName = .ok d ∧ schemaWork c.now l a.fileName d = .ok ops
        ∧ ((artifactJob c l t total i a).conclusion reply).acts
          = filedAll ops ++ [Act.told (.artifactComplete (t.progress total i a))] := by
  cases hschema : reply.schema a.fileName with
  | error e =>
      rw [conclusion_of_error hschema]
      exact Or.inl rfl
  | ok d =>
      rw [conclusion_of_ok hschema]
      cases hwork : schemaWork c.now l a.fileName d with
      | error e =>
          left
          rw [Conclusion.acts]
          dsimp only [schemaFiling]
          rw [hwork]
      | ok ops => exact Or.inr ⟨d, ops, rfl, hwork, Conclusion.acts_filing hwork⟩

theorem filterMap_course (i : Nat) (a : ArtifactWrite) (reply : Chat.Reply) :
    ((artifactJob c l t total i a).course reply).filterMap Act.event?
      = .artifactStart (t.progress total i a)
        :: ((artifactJob c l t total i a).conclusion reply).acts.filterMap Act.event? :=
  rfl

theorem events_course (i : Nat) (a : ArtifactWrite) (reply : Chat.Reply) :
    ((artifactJob c l t total i a).course reply).filterMap Act.event?
        <+: [.artifactStart (t.progress total i a), .artifactComplete (t.progress total i a)] := by
  rw [filterMap_course, List.prefix_cons_inj]
  rcases conclusion_acts c l t total i a reply with h | ⟨d, ops, -, -, h⟩
  · rw [h]
    exact List.nil_prefix
  · rw [h, List.filterMap_append, event_filedAll]
    exact List.prefix_rfl

theorem events_of_completes {i : Nat} {a : ArtifactWrite} {reply : Chat.Reply} {u : Unit}
    (h : Completes c (artifactJob c l t total i a) reply u) :
    ((artifactJob c l t total i a).course reply).filterMap Act.event?
      = [.artifactStart (t.progress total i a), .artifactComplete (t.progress total i a)] := by
  obtain ⟨d, ops, -, -, hcourse⟩ := completes_artifactJob h
  rw [hcourse, List.filterMap_append, List.filterMap_append, event_filedAll]
  rfl

theorem flatMap_getElem? {α : Type} (xs : List α) (n : Nat) :
    (List.range n).flatMap (fun i => xs[i]?.toList) = xs.take n := by
  induction n with
  | zero => rfl
  | succ n ih =>
      rw [List.range_succ, List.flatMap_append, ih, List.flatMap_singleton, List.take_add_one]

/-- What is told of artifacts is that they begin and are complete, in this order. -/
theorem events_of_gathered
    (h : Gathered c (artifactJobs c l t total artifacts) names history replies r) {i : Nat}
    (hi : i < replies.length) : ∃ a reply, artifacts[i]? = some a
      ∧ IsPart (artifactJob c l t total i a) reply (actsOf i history)
      ∧ (actsOf i history).filterMap Act.event?
        <+: [.artifactStart (t.progress total i a), .artifactComplete (t.progress total i a)] := by
  have hjob := List.getElem?_eq_getElem (Nat.lt_of_lt_of_le hi h.count)
  have hpart := h.part i _ _ hjob (List.getElem?_eq_getElem hi)
  obtain ⟨a, ha, hjob'⟩ := getElem?_artifactJobs hjob
  rw [hjob'] at hpart
  exact ⟨a, _, ha, hpart, hpart.events.trans (events_course i a _)⟩

theorem started_of_front {p q : ArtifactProgress} {front back : List Event}
    (h : front ++ Event.artifactComplete p :: back <+: [.artifactStart q, .artifactComplete q]) :
    .artifactStart p ∈ front := by
  cases front with
  | nil => cases (List.cons_prefix_cons.mp h).1
  | cons first rest =>
      obtain ⟨rfl, hrest⟩ := List.cons_prefix_cons.mp h
      cases rest with
      | nil =>
          obtain rfl := Event.artifactComplete.inj (List.cons_prefix_cons.mp hrest).1
          exact List.mem_cons_self
      | cons second rest =>
          have hnone := List.prefix_nil.mp (List.cons_prefix_cons.mp hrest).2
          cases (List.append_eq_nil_iff.mp hnone).2

theorem tells_of_gathered
    (h : Gathered c (artifactJobs c l t total artifacts) names history replies r) :
    TellsArtifacts ((t.progressOf total artifacts).take replies.length)
      ((history.map Prod.snd).filterMap Act.event?) := by
  refine ⟨?only, ?begun, ?numbered, ?ended, ?ordered⟩
  case only =>
    intro e he
    obtain ⟨act, hact, he⟩ := List.mem_filterMap.mp he
    obtain ⟨x, hx, rfl⟩ := List.mem_map.mp hact
    obtain ⟨a, -, -, -, hevents⟩ := events_of_gathered h (h.known x hx)
    have htold := hevents.subset (List.mem_filterMap.mpr ⟨x.2, mem_actsOf hx, he⟩)
    rcases List.mem_cons.mp htold with rfl | htold
    · rfl
    · rw [List.mem_singleton.mp htold]
      rfl
  case begun =>
    rw [List.filterMap_filterMap, ← begun_artifactJobs]
    exact h.opened
  case numbered =>
    rw [List.map_take, t.index_progressOf, List.take_range, List.length_take, t.length_progressOf]
  case ended =>
    have hperm := ((perm_actsOf h.known).filterMap Act.event?).filterMap Event.ended?
    rw [List.filterMap_flatMap, List.filterMap_flatMap] at hperm
    refine hperm.subperm.trans (List.Sublist.subperm ?_)
    rw [← flatMap_getElem?]
    refine List.Sublist.flatMap_right _ fun i hi => ?_
    obtain ⟨a, -, ha, -, hevents⟩ := events_of_gathered h (List.mem_range.mp hi)
    rw [t.getElem?_progressOf, ha]
    exact hevents.sublist.filterMap Event.ended?
  case ordered =>
    intro front p back hsplit
    obtain ⟨before, after, hacts, hbefore, hafter⟩ := List.filterMap_eq_append_iff.mp hsplit
    obtain ⟨quiet, act, later, rfl, hquiet, hact, -⟩ := List.filterMap_eq_cons_iff.mp hafter
    rw [← List.append_assoc] at hacts
    obtain ⟨done, rest, rfl, hdone, hrest⟩ := List.map_eq_append_iff.mp hacts
    obtain ⟨x, others, rfl, rfl, -⟩ := List.map_eq_cons_iff.mp hrest
    obtain ⟨a, -, -, -, hevents⟩ := events_of_gathered h
      (h.known x (List.mem_append_right _ List.mem_cons_self))
    rw [actsOf_append, actsOf_cons_self, List.filterMap_append, List.filterMap_cons_some hact]
      at hevents
    obtain ⟨act', hmem, hact'⟩ := List.mem_filterMap.mp (started_of_front hevents)
    have hstarted := List.mem_filterMap.mpr ⟨act', mem_of_mem_actsOf hmem, hact'⟩
    rw [hdone, List.filterMap_append, List.filterMap_eq_nil_iff.mpr hquiet, List.append_nil]
      at hstarted
    exact hbefore ▸ hstarted

theorem complete_of_gathered {vs : List Unit}
    (h : Gathered c (artifactJobs c l t total artifacts) names history replies (.ok vs)) :
    (t.progressOf total artifacts).take replies.length = t.progressOf total artifacts
      ∧ (((history.map Prod.snd).filterMap Act.event?).filterMap Event.ended?).Perm
        (t.progressOf total artifacts) := by
  obtain ⟨hlength, -, hcourse, hresults⟩ := h.done vs rfl
  have hwhole : (t.progressOf total artifacts).take replies.length
      = t.progressOf total artifacts := by
    rw [hlength, artifactJobs, List.length_map, List.length_zipIdx]
    exact List.take_of_length_le (Nat.le_of_eq (t.length_progressOf total artifacts))
  refine ⟨hwhole, ?_⟩
  have hperm := ((perm_actsOf h.known).filterMap Act.event?).filterMap Event.ended?
  rw [List.filterMap_flatMap, List.filterMap_flatMap] at hperm
  refine hperm.trans (List.Perm.of_eq ?_)
  rw [← hwhole, ← flatMap_getElem?]
  refine List.flatMap_congr fun i hi => ?_
  have hi' := List.mem_range.mp hi
  have hreply := List.getElem?_eq_getElem hi'
  have hjob := List.getElem?_eq_getElem (Nat.lt_of_lt_of_le hi' h.count)
  obtain ⟨u, -, hcompletes⟩ := (h.done vs rfl).completes hjob hreply
  rw [hcourse i _ _ hjob hreply]
  obtain ⟨a, ha, hartifact⟩ := getElem?_artifactJobs hjob
  rw [hartifact] at hcompletes ⊢
  rw [events_of_completes hcompletes, t.getElem?_progressOf, ha]
  rfl

theorem tellsArtifacts_nil : TellsArtifacts [] [] where
  only := nofun
  begun := rfl
  numbered := rfl
  ended := List.Subperm.refl []
  ordered := by
    intro front p back h
    cases front <;> cases h

theorem StoresContract.events {r : Except Trouble Unit} {acts : List Act}
    (h : StoresContract c l t r acts) : acts.filterMap Act.event? = [] := by
  cases h with
  | unfit _ => rfl
  | files _ files =>
      cases files with
      | all => exact event_filedAll _
      | upTo _ e =>
          rw [List.filterMap_append, event_filedAll]
          rfl

/-- What is told of a task between its start and its end. -/
theorem TaskCourse.tells {known : List Text} {r : Except Trouble (Nat × List Text × List Text)}
    {acts : List Act} (h : TaskCourse c l known total t r acts) :
    ∃ artifacts, TellsArtifacts artifacts (acts.filterMap Act.event?)
      ∧ (∀ p ∈ artifacts, p.task = t.task)
      ∧ ∀ result, r = .ok result → ∃ b : TaskAnswers, b.work = t ∧ result = b.result c
        ∧ artifacts = t.progressOf total (b.artifacts c)
        ∧ ((acts.filterMap Act.event?).filterMap Event.ended?).Perm artifacts := by
  cases h with
  | unstored store =>
      rw [store.events]
      exact ⟨[], tellsArtifacts_nil, nofun, nofun⟩
  | @gathered b ops history r task resolved work gathered =>
      subst task
      rw [List.filterMap_append, List.filterMap_append, event_filedAll, event_asksOf,
        List.nil_append, List.nil_append]
      refine ⟨_, tells_of_gathered gathered, ?_, ?_⟩
      · intro p hp
        obtain ⟨x, -, rfl⟩ := List.mem_map.mp (List.mem_of_mem_take hp)
        rfl
      · rintro result hresult
        cases r with
        | error e => cases hresult
        | ok vs =>
            obtain rfl := Except.ok.inj hresult
            obtain ⟨hwhole, hperm⟩ := complete_of_gathered gathered
            exact ⟨b, rfl, rfl, hwhole, by rw [hwhole]; exact hperm⟩

theorem TaskCourse.block {known : List Text} {count : Nat} {reads writes : List Text}
    {acts : List Act} (h : TaskCourse c l known total t (.ok (count, reads, writes)) acts)
    (index tasks : Nat) : ∃ (block : Block) (b : TaskAnswers), b.work = t
      ∧ block.progress = ⟨t.task, index, tasks⟩
      ∧ block.artifacts = t.progressOf total (b.artifacts c)
      ∧ count = block.artifacts.length ∧ block.resolvedWrites = (b.adoptedWrites c).map (·.fileName)
      ∧ block.events = .taskStart ⟨t.task, index, tasks⟩ :: (acts.filterMap Act.event?
        ++ [Event.taskComplete ⟨t.task, index, tasks⟩ reads writes]) := by
  obtain ⟨artifacts, htells, htask, hdone⟩ := h.tells
  obtain ⟨b, rfl, hresult, rfl, hperm⟩ := hdone _ rfl
  obtain ⟨hcount, hnames⟩ := Prod.mk.inj hresult
  obtain ⟨hreads, hwrites⟩ := Prod.mk.inj hnames
  refine ⟨⟨⟨b.work.task, index, tasks⟩, _, _, htells, hperm, htask, reads, writes⟩, b, rfl, rfl,
    rfl, ?_, hwrites, rfl⟩
  rw [hcount]
  exact (b.work.length_progressOf total _).symm

end

theorem PipelineLocation.readTask_task {l : PipelineLocation} {files : FileTree} {task : Text}
    {t : TaskWork} (h : l.readTask files task = .ok t) : t.task = task := by
  rw [readTask] at h
  split at h
  · cases h
  · split at h
    · cases h
    · split at h
      · cases h
      · obtain rfl := Except.ok.inj h
        rfl

namespace Run

theorem prepared_spec {l : PipelineLocation} {files : FileTree} {work : List TaskWork}
    (h : prepared l files = .ok work) : l.tasks files = .ok (work.map TaskWork.task) := by
  rw [prepared] at h
  cases htasks : l.tasks files with
  | error e =>
      rw [htasks] at h
      cases h
  | ok ids =>
      rw [htasks] at h
      have hall := mapM_eq_ok_iff.mp h
      clear h htasks
      congr 1
      induction hall with
      | nil => rfl
      | cons ht _ ih => rw [List.map_cons, PipelineLocation.readTask_task ht, ← ih]

end Run

/-! ## What is told of a run -/

section

variable {σ : Type} {c : Conditions σ} {l : PipelineLocation} {total : Nat}

theorem TasksCourse.tells {known : List Text} {tasks index : Nat} {work : List TaskWork}
    {result : Except Trouble Nat} {acts : List Act} (hsilent : ∀ e, c.observer e = none)
    (h : TasksCourse c l known total tasks index work result acts) :
    TasksTrace (progressFrom tasks index (work.map TaskWork.task)) result
      (acts.filterMap Act.event?) := by
  induction h with
  | nil index => exact .done [] rfl
  | unbegun refusal | unclosed _ refusal =>
      rw [hsilent] at refusal
      cases refusal
  | @failed index t rest e acts course =>
      obtain ⟨artifacts, htells, htask, -⟩ := course.tells
      refine .stopped e [] ⟨⟨t.task, index, tasks⟩, artifacts, _, htells, htask⟩ ?_
      rw [List.map_cons, progressFrom_cons]
      exact ⟨_, rfl⟩
  | @cons index count reads writes t rest r acts later _ course _ _ ih =>
      obtain ⟨block, b, -, hprogress, -, hcount, -, hevents⟩ := course.block index tasks
      have htrace := ih.cons (b := block)
      rw [hprogress, ← hcount, hevents, List.cons_append, List.append_assoc] at htrace
      show TasksTrace _ _ (.taskStart _ :: (acts ++ _ :: later).filterMap Act.event?)
      rw [List.filterMap_append]
      exact htrace

theorem RunCourse.tells_of_error {files : FileTree} {work : List TaskWork} {e : Trouble}
    {acts : List Act} (hsilent : ∀ e, c.observer e = none)
    (hprepared : Run.prepared l files = .ok work) (h : RunCourse c l work (.error e) acts) :
    RunTrace l.slug (l.tasks files) (.error e) (acts.filterMap Act.event? ++ [e.event]) := by
  obtain ⟨ids, hids⟩ : ∃ ids, work.map TaskWork.task = ids := ⟨_, rfl⟩
  have hlength : work.length = ids.length := by rw [← hids, List.length_map]
  rw [Run.prepared_spec hprepared, hids]
  cases h with
  | unbegun refusal | unclosed _ refusal =>
      rw [hsilent] at refusal
      cases refusal
  | @failed _ acts course =>
      have htold := course.tells hsilent
      rw [hids, hlength] at htold
      rw [hlength]
      show RunTrace _ _ _ (.started _ _ _ :: acts.filterMap Act.event? ++ _)
      generalize acts.filterMap Act.event? = told at htold ⊢
      cases htold with
      | stopped e blocks last hprogress => exact .failed _ e blocks last rfl hprogress

theorem RunCourse.tells_of_ok {files : FileTree} {work : List TaskWork} {s : Summary}
    {acts : List Act} (hsilent : ∀ e, c.observer e = none)
    (hprepared : Run.prepared l files = .ok work) (h : RunCourse c l work (.ok s) acts) :
    RunTrace l.slug (l.tasks files) (.ok s) (acts.filterMap Act.event?) := by
  obtain ⟨ids, hids⟩ : ∃ ids, work.map TaskWork.task = ids := ⟨_, rfl⟩
  have hlength : work.length = ids.length := by rw [← hids, List.length_map]
  rw [Run.prepared_spec hprepared, hids]
  cases h with
  | @done count acts _ course _ =>
      have htold := course.tells hsilent
      rw [hids, hlength] at htold
      rw [hlength]
      show RunTrace _ _ _
        (.started _ _ _ :: (acts ++ [Act.told (.complete _)]).filterMap Act.event?)
      rw [List.filterMap_append]
      generalize acts.filterMap Act.event? = told at htold ⊢
      cases htold with
      | done blocks hprogress => exact .finished _ blocks rfl hprogress

theorem ReportedCourse.tells {files : FileTree} {result : Except Trouble Summary}
    {acts : List Act} (hsilent : ∀ e, c.observer e = none)
    (h : ReportedCourse c l files result acts) :
    RunTrace l.slug (l.tasks files) result (acts.filterMap Act.event?) := by
  cases h with
  | @early e hprepared =>
      rw [e.reportedTo_of_silent hsilent]
      exact .early e
  | succeeded hprepared course => exact course.tells_of_ok hsilent hprepared
  | @failed work e acts hprepared course =>
      rw [e.reportedTo_of_silent hsilent, List.filterMap_append]
      exact course.tells_of_error hsilent hprepared

end

/-- **The trace of a run.** With an observer that does not fail, a run that gets the lock tells a
trace of the language, which ends in `complete` if the run has a summary and in `error` if it
fails. The summary counts the tasks and artifacts that are complete by the trace. A run that is
refused the lock tells nothing and changes nothing. -/
theorem run_tells_trace {σ : Type} (c : Conditions σ) (l : PipelineLocation) (w : World σ)
    (hsilent : ∀ e, c.observer e = none) :
    (AcquiresLock l w → ∃ result told,
      (analyzePipeline c l w).1 = result.mapError RunError.trouble
        ∧ (analyzePipeline c l w).2.events = told.reverse ++ w.events
        ∧ RunTrace l.slug (l.tasks w.files) result told
        ∧ Outline result told
        ∧ ∀ summary, result = .ok summary →
          summary.tasks = countOf "task:complete" told
            ∧ summary.artifacts = countOf "artifact:complete" told)
      ∧ ∀ holder, (w.lock.acquire l.slug).1 = .ok (.refused holder) →
        ∃ e, analyzePipeline c l w = (.error e, w) := by
  constructor
  · intro hlock
    obtain ⟨result, acts, hresult, hpasses, hcourse⟩ := analyzePipeline_course (c := c) hlock
    have htrace := hcourse.tells hsilent
    refine ⟨result, _, hresult, hpasses.events, htrace, htrace.outline, ?_⟩
    intro summary hsummary
    rw [hsummary] at htrace
    exact htrace.counts
  · intro holder hrefused
    exact analyzePipeline_of_refused hrefused

def sideBySide : FileTree :=
  { entries := [([Text.ofString "p"], .directory),
      ([Text.ofString "p", Text.ofString "pipeline.json"],
        .file (Text.ofString "\x7b\"tasks\":[\"a\"]\x7d")),
      ([Text.ofString "p", Text.ofString "a.js"], .file (Text.ofString
        "export function f()\x7bio.writeArtifact('x.json');io.writeArtifact('y.json')\x7d"))]
    current := [] }

/-- A schema with which every example is in accord. -/
def laxSchema : Chat.Reply :=
  .response (.object [("schema", .object []), ("example", .arr []),
    ("reasoning", .ofString "guessed")])

/-- Both artifacts are asked for at once, and the reply for the second one is heeded first. -/
def sideBySideConditions : Conditions Nat :=
  { client := fun _ n => (laxSchema, n + 1)
    settings := { concurrency := 2 }
    now := ⟨2026, 1, 2, 3, 4, 5, 0⟩
    schedule := fun _ => 1 }

def Event.mark (e : Event) : String × Option Nat :=
  (e.kind, (e.begun?.or e.ended?).map ArtifactProgress.index)

set_option maxRecDepth 100000 in
/-- The artifacts begin in order, and the second one is complete before the first. -/
theorem sideBySide_trace : ∃ result told,
    (analyzePipeline sideBySideConditions flatLocation { files := sideBySide, client := 0 }).1
        = result.mapError RunError.trouble
      ∧ RunTrace flatLocation.slug (flatLocation.tasks sideBySide) result told
      ∧ told.map Event.mark = [("started", none), ("task:start", none), ("artifact:start", some 0),
        ("artifact:start", some 1), ("artifact:complete", some 1), ("artifact:complete", some 0),
        ("task:complete", none), ("complete", none)] := by
  have hmarks : (analyzePipeline sideBySideConditions flatLocation
      { files := sideBySide, client := 0 }).2.events.reverse.map Event.mark
      = [("started", none), ("task:start", none), ("artifact:start", some 0),
        ("artifact:start", some 1), ("artifact:complete", some 1), ("artifact:complete", some 0),
        ("task:complete", none), ("complete", none)] := by decide +kernel
  obtain ⟨result, told, hresult, hevents, htrace, _⟩ :=
    (run_tells_trace sideBySideConditions flatLocation { files := sideBySide, client := 0 }
      fun _ => rfl).1 ⟨by decide +kernel, by decide +kernel⟩
  refine ⟨result, told, hresult, htrace, ?_⟩
  rw [hevents, List.append_nil, List.reverse_reverse] at hmarks
  exact hmarks

end TaskContract
