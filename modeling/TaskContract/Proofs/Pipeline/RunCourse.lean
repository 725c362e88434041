import TaskContract.Proofs.Pipeline.EarlyFailure
import TaskContract.Proofs.Pipeline.Gathered
import TaskContract.Proofs.Schema.Registry

/-!
# The course of a run

What is done for a task is decided by the replies to its requests: its contract is stored, its
references are asked for, and then its artifacts are gathered. `TaskCourse` says what becomes of a
task with its acts, `TasksCourse` what becomes of tasks in order, and `RunCourse` what becomes of all
that is done once every task has been analyzed. These are the only places where the parts of a run
are put together; what is said of runs elsewhere is read off their courses.
-/

namespace TaskContract

variable {σ : Type}

/-! ## Contracts -/

inductive StoresContract (c : Conditions σ) (l : PipelineLocation) (t : TaskWork) :
    Except Trouble Unit → List Act → Prop where
  | unfit {e : StoreError} (work : contractWork c l t = .error e) :
      StoresContract c l t (.error (.step (.store t.task e))) []
  | files {ops : List FileOperation} {r : Except Trouble Unit} {acts : List Act}
      (work : contractWork c l t = .ok ops)
      (files : Run.Files (fun e => .step (.store t.task (.file e))) ops r acts) :
      StoresContract c l t r acts

theorem StoresContract.eq_filedAll {c : Conditions σ} {l : PipelineLocation} {t : TaskWork}
    {acts : List Act} (h : StoresContract c l t (.ok ()) acts) :
    ∃ ops, contractWork c l t = .ok ops ∧ acts = filedAll ops := by
  cases h with
  | files work files =>
      cases files with
      | all => exact ⟨_, work, rfl⟩

theorem Run.does_storeContract (c : Conditions σ) (l : PipelineLocation) (t : TaskWork) :
    Does c (storeContract c l t) (StoresContract c l t) := by
  unfold storeContract
  cases h : contractWork c l t with
  | error e => exact does_throw (.unfit h)
  | ok ops => exact (does_file c _ ops).imp fun r acts hfiles => .files h hfiles

/-! ## References -/

def asksOf (questions : List (Chat.Request × Chat.Reply)) : List Act :=
  questions.map fun x => .asked x.1 x.2

theorem event_asksOf (questions : List (Chat.Request × Chat.Reply)) :
    (asksOf questions).filterMap Act.event? = [] :=
  List.filterMap_eq_nil_iff.mpr fun act hact => by
    obtain ⟨x, -, rfl⟩ := List.mem_map.mp hact
    rfl

theorem question_asksOf (questions : List (Chat.Request × Chat.Reply)) :
    (asksOf questions).filterMap Act.question? = questions := by
  rw [asksOf, List.filterMap_map]
  exact List.filterMap_some

theorem deed_asksOf (questions : List (Chat.Request × Chat.Reply)) :
    (asksOf questions).filterMap Act.deed? = (questions.map Prod.fst).map Deed.asked := by
  rw [asksOf, List.filterMap_map, List.map_map]
  exact congrFun List.filterMap_eq_map questions

/-- Where nothing but requests is made, these are the acts. -/
theorem eq_asksOf {acts : List Act} (h : ∀ act ∈ acts, act.question?.isSome = true) :
    acts = asksOf (acts.filterMap Act.question?) := by
  induction acts with
  | nil => rfl
  | cons act rest ih =>
      rw [List.forall_mem_cons] at h
      cases act with
      | asked r reply => exact congrArg (.asked r reply :: ·) (ih h.2)
      | told e => cases h.1
      | filed op result => cases h.1

def TaskWork.questions (t : TaskWork) (model : Chat.Model) (known : List Text)
    (rs : List UnresolvedReference) : List Chat.Request :=
  rs.map fun r => resolutionRequest model t.code r known

def Run.adoptedBy (c : Conditions σ) (rs : List UnresolvedReference) (replies : List Chat.Reply) :
    List ArtifactWrite :=
  adopted c (rs.zip (replies.map Resolution.ofReply))

section

variable {c : Conditions σ} {t : TaskWork} {known : List Text}

theorem areFor_resolutionJobs (rs : List UnresolvedReference) :
    AreFor (rs.map (resolutionJob c t known)) fun _ => [] := by
  intro i job hjob
  rw [List.getElem?_map, Option.map_eq_some_iff] at hjob
  obtain ⟨r, -, rfl⟩ := hjob
  refine ⟨fun _ _ => rfl, ?_, ?_, ?_⟩
  · intro e he
    cases he
  · intro reply f hf
    cases hf
  · intro reply f hf
    cases hf

theorem questionsOf_resolutionJobs (rs : List UnresolvedReference) (replies : List Chat.Reply) :
    questionsOf (rs.map (resolutionJob c t known)) replies
      = (t.questions c.model known rs).zip replies := by
  rw [questionsOf, TaskWork.questions, List.zip_map_left, List.zip_map_left, List.map_map]
  rfl

theorem course_resolutionJob (r : UnresolvedReference) (reply : Chat.Reply) :
    (resolutionJob c t known r).course reply
      = [.asked (resolutionRequest c.model t.code r known) reply] :=
  rfl

theorem not_fault_resolutionJob (r : UnresolvedReference) (reply : Chat.Reply) {acts : List Act}
    {e : Trouble} : ¬ Fault c (resolutionJob c t known r) reply acts e := by
  have hconclusion : (resolutionJob c t known r).conclusion reply = .result (.ofReply reply) := rfl
  intro h
  cases h with
  | refused opening _ => cases opening
  | failure conclusion | work conclusion _ | cut conclusion _ _ | closing conclusion _ _ =>
      rw [hconclusion] at conclusion
      cases conclusion

/-- References that have been gathered have been asked for in order, and none of them fails. -/
theorem gathered_resolutionJobs {rs : List UnresolvedReference} {names : Nat → Text}
    {history : List (Nat × Act)} {replies : List Chat.Reply}
    {r : Except Trouble (List Resolution)}
    (h : Gathered c (rs.map (resolutionJob c t known)) names history replies r) :
    replies.length = rs.length
      ∧ history.map Prod.snd = asksOf ((t.questions c.model known rs).zip replies)
      ∧ r = .ok (replies.map Resolution.ofReply) := by
  cases r with
  | error e =>
      obtain ⟨i, job, reply, acts, hjob, -, -, hfault⟩ := h.failed e rfl
      rw [List.getElem?_map, Option.map_eq_some_iff] at hjob
      obtain ⟨r, -, rfl⟩ := hjob
      exact (not_fault_resolutionJob r reply hfault).elim
  | ok guesses =>
      obtain ⟨hlength, hquestions, hcourse, hresults⟩ := h.done guesses rfl
      rw [List.length_map] at hlength
      refine ⟨hlength, ?_, ?_⟩
      · rw [← questionsOf_resolutionJobs, ← hquestions]
        refine eq_asksOf fun act hact => ?_
        obtain ⟨x, hx, rfl⟩ := List.mem_map.mp hact
        obtain ⟨job, reply, hjob, hreply, hmem⟩ := h.exists_job hx
        rw [hcourse _ _ _ hjob hreply] at hmem
        rw [List.getElem?_map, Option.map_eq_some_iff] at hjob
        obtain ⟨r, -, rfl⟩ := hjob
        rw [course_resolutionJob, List.mem_singleton] at hmem
        rw [hmem]
        rfl
      · rw [List.zip_map_left, List.forall₂_map_left_iff] at hresults
        have hreplies : List.Forall₂ Eq ((rs.zip replies).map fun x => Resolution.ofReply x.2)
            guesses :=
          List.forall₂_map_left_iff.mpr (hresults.imp fun x a h => h.eq_of_result rfl)
        rw [List.forall₂_eq_eq_eq] at hreplies
        have hsnd : (rs.zip replies).map Prod.snd = replies :=
          List.map_snd_zip (Nat.le_of_eq hlength)
        rw [← hreplies]
        exact congrArg Except.ok
          ((List.map_map ..).symm.trans (congrArg (List.map Resolution.ofReply) hsnd))

theorem Run.does_resolveAll (rs : List UnresolvedReference) :
    Does c (resolveAll c t known rs) fun r acts => ∃ replies, replies.length = rs.length
      ∧ acts = asksOf ((t.questions c.model known rs).zip replies)
      ∧ r = .ok (adoptedBy c rs replies) := by
  refine (does_gather (areFor_resolutionJobs rs)).bind ?_ ?_
  · rintro guesses _ ⟨history, replies, rfl, hgathered⟩
    obtain ⟨hlength, hacts, hguesses⟩ := gathered_resolutionJobs hgathered
    refine does_pure ⟨replies, hlength, ?_, ?_⟩
    · rw [List.append_nil]
      exact hacts
    · rw [adoptedBy, ← Except.ok.inj hguesses]
  · rintro e _ ⟨history, replies, rfl, hgathered⟩
    cases (gathered_resolutionJobs hgathered).2.2

end

/-! ## Artifacts -/

theorem DeducedSchema.ofReply_fst (reply : Chat.Reply) (name : Text) (registry : Schema.Registry) :
    (DeducedSchema.ofReply reply name registry).1
      = (DeducedSchema.ofReply reply name []).1 := by
  have hcheck : ∀ d : DeducedSchema, (d.check name registry).1 = (d.check name []).1 := by
    intro d
    have hcompile := Schema.Registry.compile_fst registry d.schema
    unfold DeducedSchema.check
    generalize registry.compile d.schema = compiled at hcompile ⊢
    generalize Schema.Registry.compile [] d.schema = compiled' at hcompile ⊢
    obtain ⟨result, after⟩ := compiled
    obtain ⟨result', after'⟩ := compiled'
    obtain rfl : result = result' := hcompile
    cases result with
    | ok v =>
        dsimp only
        split <;> rfl
    | error e => cases e <;> rfl
  unfold DeducedSchema.ofReply
  split
  · rfl
  · rfl
  · rfl
  · split
    · split
      · exact hcheck _
      · rfl
    · rfl

def Chat.Reply.schema (reply : Chat.Reply) (artifact : Text) : Except DeductionError DeducedSchema :=
  (DeducedSchema.ofReply reply artifact []).1

section

variable {c : Conditions σ} {l : PipelineLocation} {t : TaskWork} {total : Nat}

theorem conclude_artifactJob (i : Nat) (a : ArtifactWrite) (reply : Chat.Reply)
    (registry : Schema.Registry) :
    ((artifactJob c l t total i a).conclude reply registry).1 = match reply.schema a.fileName with
      | .error e => .failure (artifactFailure t a (.deduction e))
      | .ok d => .filing (schemaFiling c l t total i a d) := by
  rw [Chat.Reply.schema, ← DeducedSchema.ofReply_fst reply a.fileName registry, artifactJob]
  dsimp only
  generalize DeducedSchema.ofReply reply a.fileName registry = deduced
  obtain ⟨result, after⟩ := deduced
  cases result <;> rfl

theorem conclusion_of_error {i : Nat} {a : ArtifactWrite} {reply : Chat.Reply} {e : DeductionError}
    (h : reply.schema a.fileName = .error e) :
    (artifactJob c l t total i a).conclusion reply
      = .failure (artifactFailure t a (.deduction e)) := by
  rw [Job.conclusion, conclude_artifactJob, h]

theorem conclusion_of_ok {i : Nat} {a : ArtifactWrite} {reply : Chat.Reply} {d : DeducedSchema}
    (h : reply.schema a.fileName = .ok d) :
    (artifactJob c l t total i a).conclusion reply
      = .filing (schemaFiling c l t total i a d) := by
  rw [Job.conclusion, conclude_artifactJob, h]

theorem conclusion_eq_filing {i : Nat} {a : ArtifactWrite} {reply : Chat.Reply} {f : Filing Unit}
    (h : (artifactJob c l t total i a).conclusion reply = .filing f) :
    ∃ d, reply.schema a.fileName = .ok d ∧ f = schemaFiling c l t total i a d := by
  cases hschema : reply.schema a.fileName with
  | error e =>
      rw [conclusion_of_error hschema] at h
      cases h
  | ok d =>
      rw [conclusion_of_ok hschema] at h
      exact ⟨d, rfl, (Conclusion.filing.inj h).symm⟩

theorem getElem?_artifactJobs {artifacts : List ArtifactWrite} {i : Nat} {job : Job Unit}
    (h : (artifactJobs c l t total artifacts)[i]? = some job) :
    ∃ a, artifacts[i]? = some a ∧ job = artifactJob c l t total i a := by
  rw [artifactJobs, List.getElem?_map, Option.map_eq_some_iff] at h
  obtain ⟨⟨a, j⟩, hfound, rfl⟩ := h
  rw [List.getElem?_zipIdx, Option.map_eq_some_iff] at hfound
  obtain ⟨a', ha, heq⟩ := hfound
  obtain ⟨rfl, rfl⟩ := Prod.mk.inj heq
  exact ⟨a', ha, by rw [Nat.zero_add]⟩

theorem getElem?_artifactJobs_of {artifacts : List ArtifactWrite} {i : Nat} {a : ArtifactWrite}
    (h : artifacts[i]? = some a) :
    (artifactJobs c l t total artifacts)[i]? = some (artifactJob c l t total i a) := by
  rw [artifactJobs, List.getElem?_map, List.getElem?_zipIdx, h, Nat.zero_add]
  rfl

def askedFor (c : Conditions σ) (t : TaskWork) (total i : Nat) (a : ArtifactWrite)
    (reply : Chat.Reply) : List Act :=
  [.told (.artifactStart (t.progress total i a)),
    .asked (deductionRequest c.model t.code a) reply]

theorem course_artifactJob (i : Nat) (a : ArtifactWrite) (reply : Chat.Reply) :
    (artifactJob c l t total i a).course reply
      = askedFor c t total i a reply ++ ((artifactJob c l t total i a).conclusion reply).acts :=
  rfl

/-- The course of an artifact that is done: its schema is asked for, and stored. -/
theorem completes_artifactJob {i : Nat} {a : ArtifactWrite} {reply : Chat.Reply} {u : Unit}
    (h : Completes c (artifactJob c l t total i a) reply u) :
    ∃ d ops, reply.schema a.fileName = .ok d ∧ schemaWork c.now l a.fileName d = .ok ops
      ∧ (artifactJob c l t total i a).course reply = askedFor c t total i a reply
        ++ (filedAll ops ++ [Act.told (.artifactComplete (t.progress total i a))]) := by
  cases hschema : reply.schema a.fileName with
  | error e =>
      have hconclusion : (artifactJob c l t total i a).conclusion reply = _ :=
        conclusion_of_error hschema
      cases h with
      | result _ conclusion | filing _ conclusion _ _ =>
          rw [hconclusion] at conclusion
          cases conclusion
  | ok d =>
      have hconclusion : (artifactJob c l t total i a).conclusion reply = _ :=
        conclusion_of_ok hschema
      cases h with
      | result _ conclusion =>
          rw [hconclusion] at conclusion
          cases conclusion
      | filing _ conclusion work _ =>
          rw [hconclusion] at conclusion
          obtain rfl := Conclusion.filing.inj conclusion
          rw [course_artifactJob, hconclusion, Conclusion.acts_filing work]
          exact ⟨d, _, rfl, work, rfl⟩

def artifactAt (artifacts : List ArtifactWrite) (i : Nat) : Text :=
  (artifacts[i]?.map ArtifactWrite.fileName).getD []

theorem areFor_artifactJobs (artifacts : List ArtifactWrite) :
    AreFor (artifactJobs c l t total artifacts) (artifactAt artifacts) := by
  intro i job hjob
  obtain ⟨a, ha, rfl⟩ := getElem?_artifactJobs hjob
  have hname : artifactAt artifacts i = a.fileName := by
    rw [artifactAt, ha]
    rfl
  rw [hname]
  refine ⟨?steady, ?opening, ?artifact, ?closing⟩
  case steady =>
    intro reply registry
    rw [Job.conclusion, conclude_artifactJob, conclude_artifactJob]
  case opening =>
    intro e he
    obtain rfl := Option.some.inj he
    rfl
  case artifact =>
    intro reply f hf
    obtain ⟨d, -, rfl⟩ := conclusion_eq_filing hf
    rfl
  case closing =>
    intro reply f hf
    obtain ⟨d, -, rfl⟩ := conclusion_eq_filing hf
    rfl

end

/-! ## Tasks -/

/-- The replies to the requests for a task: for its references, reads before writes, and for the
schemas of its artifacts. -/
structure TaskAnswers where
  work : TaskWork
  reads : List Chat.Reply
  writes : List Chat.Reply
  schemas : List Chat.Reply

namespace TaskAnswers

variable (c : Conditions σ) (l : PipelineLocation) (known : List Text) (total : Nat)
  (b : TaskAnswers)

structure IsResolved : Prop where
  reads : b.reads.length = b.work.contract.unresolvedReads.length
  writes : b.writes.length = b.work.contract.unresolvedWrites.length

def adoptedReads : List ArtifactWrite :=
  Run.adoptedBy c b.work.contract.unresolvedReads b.reads

def adoptedWrites : List ArtifactWrite :=
  Run.adoptedBy c b.work.contract.unresolvedWrites b.writes

/-- The JSON artifacts of the task: those by its contract, and then those adopted. -/
def artifacts : List ArtifactWrite :=
  (b.work.contract.writes ++ b.adoptedWrites c).filter fun a => isJsonArtifact a.fileName

def jobs : List (Job Unit) :=
  artifactJobs c l b.work total (b.artifacts c)

def resolutions : List (Chat.Request × Chat.Reply) :=
  (b.work.questions c.model known b.work.contract.unresolvedReads).zip b.reads
    ++ (b.work.questions c.model known b.work.contract.unresolvedWrites).zip b.writes

def result : Nat × List Text × List Text :=
  ((b.artifacts c).length, (b.adoptedReads c).map (·.fileName), (b.adoptedWrites c).map (·.fileName))

end TaskAnswers

/-- What becomes of a task, with all that is done for it. -/
inductive TaskCourse (c : Conditions σ) (l : PipelineLocation) (known : List Text) (total : Nat)
    (t : TaskWork) : Except Trouble (Nat × List Text × List Text) → List Act → Prop where
  | unstored {e : Trouble} {acts : List Act} (store : StoresContract c l t (.error e) acts) :
      TaskCourse c l known total t (.error e) acts
  | gathered {b : TaskAnswers} {ops : List FileOperation} {history : List (Nat × Act)}
      {r : Except Trouble (List Unit)} (task : b.work = t) (resolved : b.IsResolved)
      (work : contractWork c l t = .ok ops)
      (gathered : Gathered c (b.jobs c l total) (artifactAt (b.artifacts c)) history b.schemas r) :
      TaskCourse c l known total t (r.map fun _ => b.result c)
        (filedAll ops ++ asksOf (b.resolutions c known) ++ history.map Prod.snd)

theorem TaskCourse.of_ok {c : Conditions σ} {l : PipelineLocation} {known : List Text} {total : Nat}
    {t : TaskWork} {result : Nat × List Text × List Text} {acts : List Act}
    (h : TaskCourse c l known total t (.ok result) acts) :
    ∃ (b : TaskAnswers) (ops : List FileOperation) (history : List (Nat × Act)) (vs : List Unit),
      b.work = t ∧ b.IsResolved ∧ contractWork c l t = .ok ops
        ∧ Gathered c (b.jobs c l total) (artifactAt (b.artifacts c)) history b.schemas (.ok vs)
        ∧ b.result c = result
        ∧ acts = filedAll ops ++ asksOf (b.resolutions c known) ++ history.map Prod.snd := by
  generalize hr : Except.ok result = r at h
  cases h with
  | unstored _ => cases hr
  | @gathered b ops history r task resolved work gathered =>
      cases r with
      | error e => cases hr
      | ok vs =>
          exact ⟨b, ops, history, vs, task, resolved, work, gathered, (Except.ok.inj hr).symm, rfl⟩

theorem Run.does_processTask (c : Conditions σ) (l : PipelineLocation) (known : List Text)
    (total : Nat) (t : TaskWork) :
    Does c (processTask c l known total t) (TaskCourse c l known total t) := by
  refine (does_storeContract c l t).bind ?stored ?storeFails
  case storeFails => exact fun e acts h => .unstored h
  case stored =>
  rintro _ _ hstored
  obtain ⟨ops, hwork, rfl⟩ := hstored.eq_filedAll
  refine (does_resolveAll _).bind ?readsResolved ?readsFail
  case readsFail =>
    rintro e _ ⟨_, _, _, hfails⟩
    cases hfails
  case readsResolved =>
  rintro _ _ ⟨reads, hreads, rfl, hadopted⟩
  obtain rfl := Except.ok.inj hadopted
  refine (does_resolveAll _).bind ?writesResolved ?writesFail
  case writesFail =>
    rintro e _ ⟨_, _, _, hfails⟩
    cases hfails
  case writesResolved =>
  rintro _ _ ⟨writes, hwrites, rfl, hadopted⟩
  obtain rfl := Except.ok.inj hadopted
  let b (schemas : List Chat.Reply) : TaskAnswers := ⟨t, reads, writes, schemas⟩
  have hacts : ∀ (history : List (Nat × Act)) schemas, filedAll ops
      ++ (asksOf ((t.questions c.model known t.contract.unresolvedReads).zip reads)
        ++ (asksOf ((t.questions c.model known t.contract.unresolvedWrites).zip writes)
          ++ history.map Prod.snd))
      = filedAll ops ++ asksOf ((b schemas).resolutions c known) ++ history.map Prod.snd := by
    intro history schemas
    rw [TaskAnswers.resolutions, asksOf, asksOf, asksOf, List.map_append]
    simp only [List.append_assoc]
    rfl
  refine (does_gather (areFor_artifactJobs _)).bind ?done ?gatherFails
  case gatherFails =>
    rintro e _ ⟨history, schemas, rfl, hgathered⟩
    rw [hacts history schemas]
    exact .gathered (b := b schemas) rfl ⟨hreads, hwrites⟩ hwork hgathered
  case done =>
    rintro vs _ ⟨history, schemas, rfl, hgathered⟩
    refine does_pure ?_
    rw [List.append_nil, hacts history schemas]
    exact .gathered (b := b schemas) rfl ⟨hreads, hwrites⟩ hwork hgathered

/-- The tasks of a run in order: what is told and done for them, and the number of their schemas.
Only a failure ends them before the last. -/
inductive TasksCourse (c : Conditions σ) (l : PipelineLocation) (known : List Text)
    (total tasks : Nat) : (index : Nat) → List TaskWork → Except Trouble Nat → List Act → Prop where
  | nil (index : Nat) : TasksCourse c l known total tasks index [] (.ok 0) []
  | unbegun {index : Nat} {t : TaskWork} {rest : List TaskWork} {m : Text}
      (refusal : c.observer (.taskStart ⟨t.task, index, tasks⟩) = some m) :
      TasksCourse c l known total tasks index (t :: rest) (.error (.observer m))
        [.told (.taskStart ⟨t.task, index, tasks⟩)]
  | failed {index : Nat} {t : TaskWork} {rest : List TaskWork} {e : Trouble} {acts : List Act}
      (course : TaskCourse c l known total t (.error e) acts) :
      TasksCourse c l known total tasks index (t :: rest) (.error e)
        (.told (.taskStart ⟨t.task, index, tasks⟩) :: acts)
  | unclosed {index count : Nat} {reads writes : List Text} {t : TaskWork} {rest : List TaskWork}
      {m : Text} {acts : List Act}
      (course : TaskCourse c l known total t (.ok (count, reads, writes)) acts)
      (refusal : c.observer (.taskComplete ⟨t.task, index, tasks⟩ reads writes) = some m) :
      TasksCourse c l known total tasks index (t :: rest) (.error (.observer m))
        (.told (.taskStart ⟨t.task, index, tasks⟩)
          :: (acts ++ [Act.told (.taskComplete ⟨t.task, index, tasks⟩ reads writes)]))
  | cons {index count : Nat} {reads writes : List Text} {t : TaskWork} {rest : List TaskWork}
      {r : Except Trouble Nat} {acts later : List Act}
      (begun : c.observer (.taskStart ⟨t.task, index, tasks⟩) = none)
      (course : TaskCourse c l known total t (.ok (count, reads, writes)) acts)
      (closed : c.observer (.taskComplete ⟨t.task, index, tasks⟩ reads writes) = none)
      (others : TasksCourse c l known total tasks (index + 1) rest r later) :
      TasksCourse c l known total tasks index (t :: rest) (r.map (count + ·))
        (.told (.taskStart ⟨t.task, index, tasks⟩)
          :: (acts ++ Act.told (.taskComplete ⟨t.task, index, tasks⟩ reads writes) :: later))

theorem Run.does_processTasks (c : Conditions σ) (l : PipelineLocation) (known : List Text)
    (total tasks : Nat) (work : List TaskWork) (index : Nat) :
    Does c (processTasks c l known total tasks index work)
      (TasksCourse c l known total tasks index work) := by
  induction work generalizing index with
  | nil => exact does_pure (.nil index)
  | cons t rest ih =>
      refine does_emit_bind (fun m hrefusal => .unbegun hrefusal) fun hbegun => ?_
      refine (does_processTask c l known total t).bind ?processed ?processFails
      case processFails => exact fun e acts h => .failed h
      case processed =>
      rintro ⟨count, reads, writes⟩ acts hcourse
      refine does_emit_bind (fun m hrefusal => .unclosed hcourse hrefusal) fun hclosed => ?_
      refine (ih (index + 1)).bind ?others ?othersFail
      case othersFail => exact fun e later h => .cons hbegun hcourse hclosed h
      case others =>
        intro count' later h
        refine does_pure ?_
        rw [List.append_nil]
        exact .cons hbegun hcourse hclosed h

/-- All that is done once every task has been analyzed. -/
inductive RunCourse (c : Conditions σ) (l : PipelineLocation) (work : List TaskWork) :
    Except Trouble Summary → List Act → Prop where
  | unbegun {m : Text}
      (refusal : c.observer (.started l.slug work.length (Run.artifactCount work)) = some m) :
      RunCourse c l work (.error (.observer m))
        [.told (.started l.slug work.length (Run.artifactCount work))]
  | failed {e : Trouble} {acts : List Act}
      (course : TasksCourse c l (Run.knownArtifacts work) (Run.artifactCount work) work.length 0
        work (.error e) acts) :
      RunCourse c l work (.error e)
        (.told (.started l.slug work.length (Run.artifactCount work)) :: acts)
  | unclosed {count : Nat} {m : Text} {acts : List Act}
      (course : TasksCourse c l (Run.knownArtifacts work) (Run.artifactCount work) work.length 0
        work (.ok count) acts)
      (refusal : c.observer (.complete ⟨l.slug, work.length, count, 0⟩) = some m) :
      RunCourse c l work (.error (.observer m))
        (.told (.started l.slug work.length (Run.artifactCount work))
          :: (acts ++ [Act.told (.complete ⟨l.slug, work.length, count, 0⟩)]))
  | done {count : Nat} {acts : List Act}
      (begun : c.observer (.started l.slug work.length (Run.artifactCount work)) = none)
      (course : TasksCourse c l (Run.knownArtifacts work) (Run.artifactCount work) work.length 0
        work (.ok count) acts)
      (closed : c.observer (.complete ⟨l.slug, work.length, count, 0⟩) = none) :
      RunCourse c l work (.ok ⟨l.slug, work.length, count, 0⟩)
        (.told (.started l.slug work.length (Run.artifactCount work))
          :: (acts ++ [Act.told (.complete ⟨l.slug, work.length, count, 0⟩)]))

theorem Run.does_perform (c : Conditions σ) (l : PipelineLocation) (work : List TaskWork) :
    Does c (perform c l work) (RunCourse c l work) := by
  refine does_emit_bind (fun m hrefusal => .unbegun hrefusal) fun hbegun => ?_
  refine (does_processTasks c l _ _ _ work 0).bind ?processed ?processFails
  case processFails => exact fun e acts h => .failed h
  case processed =>
    intro count acts hcourse
    refine does_emit_bind (fun m hrefusal => .unclosed hcourse hrefusal) fun hclosed => ?_
    exact does_pure (.done hbegun hcourse hclosed)

/-! ## Whole runs -/

/-- What a run tells and does whose failures are reported, from some files on. -/
inductive ReportedCourse (c : Conditions σ) (l : PipelineLocation) (files : FileTree) :
    Except Trouble Summary → List Act → Prop where
  | early {e : Trouble} (prepared : Run.prepared l files = .error e) :
      ReportedCourse c l files (.error (e.reportedTo c)) [.told e.event]
  | succeeded {work : List TaskWork} {s : Summary} {acts : List Act}
      (prepared : Run.prepared l files = .ok work) (course : RunCourse c l work (.ok s) acts) :
      ReportedCourse c l files (.ok s) acts
  | failed {work : List TaskWork} {e : Trouble} {acts : List Act}
      (prepared : Run.prepared l files = .ok work) (course : RunCourse c l work (.error e) acts) :
      ReportedCourse c l files (.error (e.reportedTo c)) (acts ++ [Act.told e.event])

theorem Run.reported_course (c : Conditions σ) (l : PipelineLocation) (w : World σ) :
    ∃ acts, Passes c w acts ((reported c l).run w).2
      ∧ ReportedCourse c l w.files ((reported c l).run w).1 acts := by
  cases hprepared : prepared l w.files with
  | error e =>
      rw [run_reported_of_error (run_body_of_error c hprepared)]
      exact ⟨_, .tell c w e.event, .early hprepared⟩
  | ok work =>
      obtain ⟨acts, hpasses, hcourse, -⟩ := does_perform c l work w
      have hbody := run_body_of_ok c hprepared
      generalize (perform c l work).run w = ending at hpasses hcourse hbody
      obtain ⟨result, w'⟩ := ending
      cases result with
      | ok s =>
          rw [run_reported, hbody]
          exact ⟨acts, hpasses, .succeeded hprepared hcourse⟩
      | error e =>
          rw [run_reported_of_error hbody]
          exact ⟨_, hpasses.trans (.tell c w' e.event), .failed hprepared hcourse⟩

/-- **A run that gets the lock takes a course**, and gives the lock back. -/
theorem analyzePipeline_course {c : Conditions σ} {l : PipelineLocation} {w : World σ}
    (hlock : AcquiresLock l w) : ∃ r acts,
      (analyzePipeline c l w).1 = r.mapError RunError.trouble
        ∧ Passes c w acts (analyzePipeline c l w).2 ∧ ReportedCourse c l w.files r acts := by
  obtain ⟨acts, hpasses, hcourse⟩ := Run.reported_course c l (w.held l.slug)
  rw [analyzePipeline_of_acquires hlock hpasses.lock]
  exact ⟨_, acts, rfl, ⟨hpasses.events, hpasses.deeds, rfl, hpasses.performs⟩, hcourse⟩

theorem analyzePipeline_of_perform {c : Conditions σ} {l : PipelineLocation} {w after : World σ}
    {work : List TaskWork} {s : Summary} (hlock : AcquiresLock l w)
    (hprepared : Run.prepared l w.files = .ok work)
    (hperform : (Run.perform c l work).run (w.held l.slug) = (.ok s, after))
    (hheld : after.lock = (w.held l.slug).lock) :
    analyzePipeline c l w = (.ok s, { after with lock := w.lock }) := by
  have hrun : (Run.reported c l).run (w.held l.slug) = (.ok s, after) := by
    rw [Run.run_reported, Run.run_body_of_ok c (w := w.held l.slug) hprepared, hperform]
  rw [analyzePipeline_of_acquires hlock (by rw [hrun]; exact hheld), hrun]
  rfl

structure Succeeded (c : Conditions σ) (l : PipelineLocation) (w w' : World σ) (s : Summary)
    (work : List TaskWork) (acts : List Act) : Prop where
  lock : AcquiresLock l w
  prepared : Run.prepared l w.files = .ok work
  course : RunCourse c l work (.ok s) acts
  passes : Passes c w acts w'
  /-- With the same tasks, where the same acts can be done, a run does them again. -/
  again : ∀ v stop, Run.prepared l v.files = .ok work → v.lock = w.lock → v.client = w.client →
    v.tick = w.tick → Performs c (v.files, v.client) acts stop →
    ∃ v', analyzePipeline c l v = (.ok s, v') ∧ Passes c v acts v'

theorem succeeded_of_ok {c : Conditions σ} {l : PipelineLocation} {w w' : World σ} {s : Summary}
    (h : analyzePipeline c l w = (.ok s, w')) :
    ∃ work acts, Succeeded c l w w' s work acts := by
  have hlock : AcquiresLock l w := by
    by_contra hlock
    obtain ⟨e, he⟩ := analyzePipeline_of_not_acquires (c := c) hlock
    rw [h] at he
    cases (Prod.mk.inj he).1
  have hfails : ∀ {e after}, (Run.body c l).run (w.held l.slug) = (.error e, after) →
      after.lock = (w.held l.slug).lock → False := by
    intro e after hbody hheld
    have hreported := Run.run_reported_of_error hbody
    rw [analyzePipeline_of_acquires hlock (by rw [hreported]; exact hheld), hreported] at h
    cases (Prod.mk.inj h).1
  cases hprepared : Run.prepared l w.files with
  | error e => exact (hfails (Run.run_body_of_error c (w := w.held l.slug) hprepared) rfl).elim
  | ok work =>
      obtain ⟨acts, hpasses, hcourse, hredone⟩ := Run.does_perform c l work (w.held l.slug)
      have hbody := Run.run_body_of_ok c (w := w.held l.slug) hprepared
      unfold Run.IsRedone at hredone
      cases hperform : (Run.perform c l work).run (w.held l.slug) with
      | mk r after =>
          rw [hperform] at hbody hpasses hcourse hredone
          cases r with
          | error e => exact (hfails hbody hpasses.lock).elim
          | ok s' =>
              rw [analyzePipeline_of_perform hlock hprepared hperform hpasses.lock] at h
              obtain ⟨hs, rfl⟩ := Prod.mk.inj h
              obtain rfl := Except.ok.inj hs
              refine ⟨work, acts, hlock, hprepared, hcourse,
                ⟨hpasses.events, hpasses.deeds, rfl, hpasses.performs⟩, ?_⟩
              intro v stop hprepared' hfree hclient htick hperforms
              have hlock' : AcquiresLock l v := by
                refine ⟨hlock.slug, ?_⟩
                rw [hfree]
                exact hlock.acquired
              obtain ⟨v', hrun, hpasses', -⟩ := hredone (v.held l.slug) stop hclient htick hperforms
              exact ⟨_, analyzePipeline_of_perform hlock' hprepared' hrun hpasses'.lock,
                hpasses'.events, hpasses'.deeds, rfl, hpasses'.performs⟩

end TaskContract
