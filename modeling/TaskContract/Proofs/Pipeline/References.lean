import TaskContract.Proofs.Inference.Resolution
import TaskContract.Proofs.Pipeline.Trace

/-!
# References and their replies

The references of a task are asked for side by side, reads before writes, and whatever the client
replies, the work on the task goes on. The reply to a reference decides alone whether an artifact is
adopted for it; so the artifacts that are adopted stand in the order of their references, and no
reply moves those of the others.
-/

namespace TaskContract

variable {σ : Type}

def UnresolvedReference.adopted? (τ : ℚ) (r : UnresolvedReference) (reply : Chat.Reply) :
    Option ArtifactWrite :=
  (reply.named? τ).map fun name => ⟨name, r.stage⟩

/-- The artifacts adopted for references, each by its own reply. -/
def adoptedFor (τ : ℚ) (rs : List UnresolvedReference) (replies : List Chat.Reply) :
    List ArtifactWrite :=
  (rs.zip replies).filterMap fun x => x.1.adopted? τ x.2

namespace TaskWork

variable (t : TaskWork)

def references : List UnresolvedReference :=
  t.contract.unresolvedReads ++ t.contract.unresolvedWrites

def adoptedReads (τ : ℚ) (replies : List Chat.Reply) : List ArtifactWrite :=
  adoptedFor τ t.contract.unresolvedReads replies

def adoptedWrites (τ : ℚ) (replies : List Chat.Reply) : List ArtifactWrite :=
  adoptedFor τ t.contract.unresolvedWrites (replies.drop t.contract.unresolvedReads.length)

def jsonArtifacts (τ : ℚ) (replies : List Chat.Reply) : List ArtifactWrite :=
  (t.contract.writes ++ t.adoptedWrites τ replies).filter fun a => isJsonArtifact a.fileName

end TaskWork

/-! ## One reply for each reference -/

section

variable {τ : ℚ}

theorem adoptedFor_append {rs rs' : List UnresolvedReference} {replies replies' : List Chat.Reply}
    (h : rs.length = replies.length) :
    adoptedFor τ (rs ++ rs') (replies ++ replies')
      = adoptedFor τ rs replies ++ adoptedFor τ rs' replies' := by
  rw [adoptedFor, List.zip_append h, List.filterMap_append]
  rfl

theorem adoptedFor_cons (r : UnresolvedReference) (rs : List UnresolvedReference)
    (reply : Chat.Reply) (replies : List Chat.Reply) :
    adoptedFor τ (r :: rs) (reply :: replies)
      = (r.adopted? τ reply).toList ++ adoptedFor τ rs replies := by
  cases h : r.adopted? τ reply <;> simp [adoptedFor, h]

/-- Replies beyond the references adopt nothing. -/
theorem adoptedFor_beyond {rs : List UnresolvedReference} {replies : List Chat.Reply}
    (h : rs.length ≤ replies.length) (more : List Chat.Reply) :
    adoptedFor τ rs (replies ++ more) = adoptedFor τ rs replies := by
  induction rs generalizing replies with
  | nil => rfl
  | cons r rest ih =>
      cases replies with
      | nil => cases h
      | cons reply others =>
          rw [List.cons_append, adoptedFor_cons, adoptedFor_cons, ih (Nat.le_of_succ_le_succ h)]

/-- A reply decides on the entry of its own reference, and on no other. -/
theorem adoptedFor_split (rs : List UnresolvedReference) (front back : List Chat.Reply)
    (h : front.length < rs.length) :
    ∃ before r later, rs = before ++ r :: later ∧ before.length = front.length
      ∧ ∀ reply, adoptedFor τ rs (front ++ reply :: back)
        = adoptedFor τ before front ++ (r.adopted? τ reply).toList ++ adoptedFor τ later back := by
  refine ⟨rs.take front.length, rs[front.length], rs.drop (front.length + 1), by simp,
    by simp [h.le], ?_⟩
  intro reply
  have hsplit : rs = rs.take front.length ++ rs[front.length] :: rs.drop (front.length + 1) := by
    simp
  conv_lhs => rw [hsplit]
  rw [adoptedFor_append (by simp [h.le]), adoptedFor_cons, List.append_assoc]

end

namespace TaskWork

variable {τ : ℚ} (t : TaskWork)

theorem adopted_own_entry (front back : List Chat.Reply) (h : front.length < t.references.length) :
    ∃ (before : List UnresolvedReference) (r : UnresolvedReference)
        (later : List UnresolvedReference),
      t.references = before ++ r :: later ∧ before.length = front.length
      ∧ ((∃ reads reads' writes, ∀ reply,
          t.adoptedReads τ (front ++ reply :: back)
            = reads ++ (r.adopted? τ reply).toList ++ reads'
          ∧ t.adoptedWrites τ (front ++ reply :: back) = writes)
        ∨ ∃ reads writes writes', ∀ reply, t.adoptedReads τ (front ++ reply :: back) = reads
          ∧ t.adoptedWrites τ (front ++ reply :: back)
            = writes ++ (r.adopted? τ reply).toList ++ writes') := by
  rw [references, List.length_append] at h
  by_cases hread : front.length < t.contract.unresolvedReads.length
  · obtain ⟨before, r, later, hsplit, hlength, hreads⟩ :=
      adoptedFor_split (τ := τ) t.contract.unresolvedReads front back hread
    obtain ⟨k, hk⟩ := Nat.exists_eq_add_of_lt hread
    have hdrop : ∀ reply, (front ++ reply :: back).drop t.contract.unresolvedReads.length
        = back.drop k := by
      intro reply
      rw [hk, Nat.add_assoc, List.drop_length_add_append, List.drop_succ_cons]
    refine ⟨before, r, later ++ t.contract.unresolvedWrites, ?_, hlength,
      .inl ⟨_, _, _, fun reply => ⟨hreads reply, congrArg (adoptedFor τ _) (hdrop reply)⟩⟩⟩
    simp [references, hsplit]
  · rw [not_lt] at hread
    obtain ⟨before, r, later, hsplit, hlength, hwrites⟩ :=
      adoptedFor_split (τ := τ) t.contract.unresolvedWrites
        (front.drop t.contract.unresolvedReads.length) back (by simp; omega)
    have hwhole : ∀ reply, (front ++ reply :: back).drop t.contract.unresolvedReads.length
        = front.drop t.contract.unresolvedReads.length ++ reply :: back :=
      fun reply => List.drop_append_of_le_length hread
    refine ⟨t.contract.unresolvedReads ++ before, r, later, ?_, ?_, .inr ⟨_, _, _, fun reply =>
      ⟨adoptedFor_beyond hread _, (congrArg (adoptedFor τ _) (hwhole reply)).trans (hwrites reply)⟩⟩⟩
    · simp [references, hsplit]
    · simp [hlength, hread]

theorem questions_references (model : Chat.Model) (known : List Text) :
    t.questions model known t.references
      = t.questions model known t.contract.unresolvedReads
        ++ t.questions model known t.contract.unresolvedWrites :=
  List.map_append ..

variable {reads writes : List Chat.Reply} (h : reads.length = t.contract.unresolvedReads.length)

include h

theorem adoptedReads_append :
    t.adoptedReads τ (reads ++ writes) = adoptedFor τ t.contract.unresolvedReads reads :=
  adoptedFor_beyond h.ge writes

theorem adoptedWrites_append :
    t.adoptedWrites τ (reads ++ writes) = adoptedFor τ t.contract.unresolvedWrites writes := by
  rw [adoptedWrites, ← h, List.drop_left]

end TaskWork

/-! ## Asking side by side -/

/-- The world when requests have been made and their replies heeded, each of these by a choice. -/
def World.afterAsking (w : World σ) (c : Conditions σ) (rs : List Chat.Request) : World σ :=
  { w with client := c.client.after rs w.client, deeds := (rs.map Deed.asked).reverse ++ w.deeds
           tick := w.tick + 2 * rs.length }

theorem World.afterAsking_append (w : World σ) (c : Conditions σ) (front back : List Chat.Request) :
    w.afterAsking c (front ++ back) = (w.afterAsking c front).afterAsking c back := by
  have htick : w.tick + 2 * (front.length + back.length)
      = w.tick + 2 * front.length + 2 * back.length := by omega
  simp only [afterAsking, Chat.Client.after_append, List.map_append, List.reverse_append,
    List.append_assoc, List.length_append, htick]

namespace Gathering

variable {c : Conditions σ} {t : TaskWork} {known : List Text} {rs : List UnresolvedReference}
  {g : Gathering σ Resolution} {history : List (Nat × Act)} {w : World σ}

/-- Among references nothing fails, and a job that has begun is asking or has ended. -/
theorem Reaches.resolution_phases
    (h : Reaches c { queue := rs.map (resolutionJob c t known), world := w } history g) :
    g.failure = none ∧ (∀ job ∈ g.queue, ∃ r, job = resolutionJob c t known r)
      ∧ ∀ p ∈ g.begun, (∃ r reply, p = .asking (resolutionJob c t known r) reply)
        ∨ ∃ guess, p = .ended guess := by
  obtain ⟨replies, hkept, -⟩ := h.ordered (areFor_resolutionJobs rs)
  have hjob : ∀ {job}, job ∈ rs.map (resolutionJob c t known) →
      ∃ r, job = resolutionJob c t known r := by
    intro job hmem
    obtain ⟨r, -, rfl⟩ := List.mem_map.mp hmem
    exact ⟨r, rfl⟩
  have hnone : g.failure = none := by
    refine Option.eq_none_iff_forall_ne_some.mpr fun e he => ?_
    obtain ⟨i, job, reply, acts, hfound, -, -, hfault⟩ := hkept.failed e he
    obtain ⟨r, rfl⟩ := hjob (List.mem_of_getElem? hfound)
    exact not_fault_resolutionJob r reply hfault
  refine ⟨hnone, fun job hmem => hjob (hkept.mem_queue hmem), ?_⟩
  intro p hp
  obtain ⟨-, hsound⟩ := hkept.sound hnone
  have hp' := hsound p hp
  obtain ⟨i, hi⟩ := List.getElem?_of_mem hp
  obtain ⟨job, reply, hfound, -, hstands⟩ := hkept.stands i p hi
  obtain ⟨r, rfl⟩ := hjob (List.mem_of_getElem? hfound)
  have hconclusion : (resolutionJob c t known r).conclusion reply = .result (.ofReply reply) := rfl
  generalize actsOf i history = acts at hstands
  cases hstands with
  | asking _ => exact Or.inl ⟨r, reply, rfl⟩
  | waiting _ conclusion | writing _ conclusion _ | failing conclusion _ =>
      rw [hconclusion] at conclusion
      cases conclusion
  | abandoned _ | gone _ => cases hp'
  | ended _ => exact Or.inr ⟨_, rfl⟩

/-- The choices that have been made and those that are still to be made are two for each
reference. -/
theorem Reaches.resolution_count
    (h : Reaches c { queue := rs.map (resolutionJob c t known), world := w } history g) :
    g.world.registry = w.registry
      ∧ g.world.tick + 2 * g.queue.length + g.begun.countP Phase.isAsking
        = w.tick + 2 * rs.length := by
  induction h with
  | refl => exact ⟨rfl, congrArg (w.tick + 2 * ·) (List.length_map _)⟩
  | @move history entries g g' reaches goes ih =>
      obtain ⟨hregistry, hcount⟩ := ih
      obtain ⟨hnone, hqueue, hphases⟩ := reaches.resolution_phases
      cases goes with
      | @asks job queue reply world next accepted passes tick registry =>
          refine ⟨registry.trans hregistry, ?_⟩
          have hbegun : (g.begun ++ [Phase.asking job reply]).countP Phase.isAsking
              = g.begun.countP Phase.isAsking + 1 := List.countP_append
          rw [next, List.length_cons] at hcount
          dsimp only [begins]
          rw [hbegun, tick]
          omega
      | refused next opening _ _ =>
          obtain ⟨r, rfl⟩ := hqueue _ (next ▸ List.mem_cons_self)
          cases opening
      | @turns i p p' acts s trouble world found turn passes tick registry =>
          obtain ⟨hlt, hfound⟩ := List.getElem?_eq_some_iff.mp found
          rcases hphases p (List.mem_of_getElem? found) with ⟨r, reply, rfl⟩ | ⟨guess, rfl⟩
          · refine ⟨(registry fun _ _ => rfl).trans hregistry, ?_⟩
            have hasking : 0 < g.begun.countP Phase.isAsking :=
              List.countP_pos_iff.mpr ⟨_, List.mem_of_getElem? found, rfl⟩
            have hended : (g.begun.set i p').countP Phase.isAsking
                = g.begun.countP Phase.isAsking - 1 := by
              rw [List.countP_set hlt, hfound]
              cases turn <;> rfl
            dsimp only [after]
            rw [hended, tick]
            omega
          · cases turn
      | cancels failed _ _ =>
          rw [hnone] at failed
          cases failed

/-- Where nothing is open, all choices have been made. -/
theorem Reaches.resolution_tick
    (h : Reaches c { queue := rs.map (resolutionJob c t known), world := w } history g)
    (hsettled : g.IsSettled) : g.world.tick = w.tick + 2 * rs.length := by
  have hcount := h.resolution_count.2
  have hasking : g.begun.countP Phase.isAsking = 0 := by
    refine List.countP_eq_zero.mpr fun p hp hasking => ?_
    have hover := hsettled.begun p hp
    cases p with
    | asking job reply => cases hover
    | _ => cases hasking
  rw [hsettled.queue, hasking] at hcount
  exact hcount

end Gathering

attribute [ext] World

namespace Run

variable {c : Conditions σ} {l : PipelineLocation} {τ : ℚ}

/-- Asks some requests. No reply is a failure. -/
def ask (c : Conditions σ) (rs : List Chat.Request) : Run σ (List Chat.Reply) := fun w =>
  (.ok (c.client.replies rs w.client), w.afterAsking c rs)

def finish (c : Conditions σ) (l : PipelineLocation) (total : Nat) (t : TaskWork)
    (reads writes : List ArtifactWrite) : Run σ (Nat × List Text × List Text) := do
  let artifacts := (t.contract.writes ++ writes).filter fun a => isJsonArtifact a.fileName
  let _ ← gather c (artifactJobs c l t total artifacts)
  return (artifacts.length, reads.map (·.fileName), writes.map (·.fileName))

theorem run_ask (rs : List Chat.Request) (w : World σ) :
    (ask c rs).run w = (.ok (c.client.replies rs w.client), w.afterAsking c rs) :=
  rfl

theorem performs_asksOf {files : FileTree} {state : σ} {stop : FileTree × σ}
    {questions : List (Chat.Request × Chat.Reply)}
    (h : Performs c (files, state) (asksOf questions) stop) : stop.1 = files := by
  induction questions generalizing state with
  | nil => exact congrArg Prod.fst h.nil_inv
  | cons x rest ih =>
      cases h with
      | asked _ hrest => exact ih hrest

/-- References that are gathered are asked for one after another, whatever comes between. -/
theorem run_gather_resolutions (t : TaskWork) (known : List Text) (rs : List UnresolvedReference)
    (w : World σ) :
    (gather c (rs.map (resolutionJob c t known))).run w
      = (.ok ((c.client.replies (t.questions c.model known rs) w.client).map Resolution.ofReply),
        w.afterAsking c (t.questions c.model known rs)) := by
  have hfor : AreFor (rs.map (resolutionJob c t known)) _ := areFor_resolutionJobs rs
  obtain ⟨history, g, hreaches, hsettled, hrun, -⟩ := gather_reaches (c := c) hfor w
  obtain ⟨replies, hkept, hordered⟩ := hreaches.ordered hfor
  obtain ⟨hlength, hacts, houtcome⟩ :=
    gathered_resolutionJobs (hkept.gathered hordered hsettled)
  have hpasses := hreaches.passes
  rw [hacts] at hpasses
  have hzip : (t.questions c.model known rs).length = replies.length := by
    rw [hlength, TaskWork.questions, List.length_map]
  obtain ⟨hreplies, hclient⟩ := hpasses.performs.replies
  rw [question_asksOf, List.map_fst_zip (Nat.le_of_eq hzip)] at hreplies hclient
  rw [List.map_snd_zip (Nat.le_of_eq hzip.symm)] at hreplies
  rw [hrun, houtcome, hreplies]
  congr 1
  ext1
  case files => exact performs_asksOf hpasses.performs
  case client => exact hclient
  case lock => exact hpasses.lock
  case registry => exact hreaches.resolution_count.1
  case events =>
    rw [hpasses.events, event_asksOf]
    rfl
  case deeds =>
    rw [hpasses.deeds, deed_asksOf, List.map_fst_zip (Nat.le_of_eq hzip)]
    rfl
  case tick =>
    rw [hreaches.resolution_tick hsettled, World.afterAsking, TaskWork.questions, List.length_map]

theorem adopted_eq (hτ : c.settings.confidenceThreshold.value? = some τ)
    (rs : List UnresolvedReference) (replies : List Chat.Reply) :
    adopted c (rs.zip (replies.map Resolution.ofReply)) = adoptedFor τ rs replies := by
  rw [adopted, adoptedFor, List.zip_map_right, List.filterMap_map]
  refine List.filterMap_congr fun x _ => ?_
  rw [UnresolvedReference.adopted?, ← Resolution.adopted_name hτ x.2]
  cases hname : (Resolution.ofReply x.2).fileName with
  | none => simp [hname]
  | some name =>
      simp only [Function.comp_apply, Prod.map_snd, Prod.map_fst, hname]
      split <;> rfl

theorem run_resolveAll (hτ : c.settings.confidenceThreshold.value? = some τ) (t : TaskWork)
    (known : List Text) (rs : List UnresolvedReference) (w : World σ) :
    (resolveAll c t known rs).run w
      = (.ok (adoptedFor τ rs (c.client.replies (t.questions c.model known rs) w.client)),
        w.afterAsking c (t.questions c.model known rs)) := by
  rw [resolveAll, run_bind, run_gather_resolutions]
  dsimp only
  rw [adopted_eq hτ]
  rfl

/-- **The work on a task goes on by the replies for its references**, of which none ends it. -/
theorem processTask_asks (hτ : c.settings.confidenceThreshold.value? = some τ)
    (known : List Text) (total : Nat) (t : TaskWork) :
    processTask c l known total t = (do
      storeContract c l t
      let replies ← ask c (t.questions c.model known t.references)
      finish c l total t (t.adoptedReads τ replies) (t.adoptedWrites τ replies)) := by
  refine congrArg (storeContract c l t >>= ·) (funext fun _ => funext fun w => ?_)
  show (resolveAll c t known t.contract.unresolvedReads >>= fun reads =>
      resolveAll c t known t.contract.unresolvedWrites >>= fun writes =>
        finish c l total t reads writes).run w
    = (ask c (t.questions c.model known t.references) >>= fun replies =>
      finish c l total t (t.adoptedReads τ replies) (t.adoptedWrites τ replies)).run w
  have hlength : (c.client.replies (t.questions c.model known t.contract.unresolvedReads)
      w.client).length = t.contract.unresolvedReads.length := by
    simp [TaskWork.questions]
  rw [run_bind, run_resolveAll hτ]
  dsimp only
  rw [run_bind, run_resolveAll hτ, run_bind, run_ask, t.questions_references,
    World.afterAsking_append, Chat.Client.replies_append]
  dsimp only
  rw [t.adoptedReads_append hlength, t.adoptedWrites_append hlength]
  rfl

end Run

/-! ## Completed tasks -/

inductive DeducesSchema (c : Conditions σ) (l : PipelineLocation) (t : TaskWork) (total i : Nat)
    (a : ArtifactWrite) (reply : Chat.Reply) : List Act → Prop where
  | stored {d : DeducedSchema} {ops : List FileOperation} (schema : reply.schema a.fileName = .ok d)
      (work : schemaWork c.now l a.fileName d = .ok ops) :
      DeducesSchema c l t total i a reply (askedFor c t total i a reply
        ++ (filedAll ops ++ [Act.told (.artifactComplete (t.progress total i a))]))

section

variable (c : Conditions σ) (l : PipelineLocation) (known : List Text) (total : Nat) (τ : ℚ)

def TaskWork.replies (t : TaskWork) (state : σ) : List Chat.Reply :=
  c.client.replies (t.questions c.model known t.references) state

def TaskWork.artifactsFrom (t : TaskWork) (state : σ) : List ArtifactWrite :=
  t.jsonArtifacts τ (t.replies c known state)

def TaskWork.deductions (t : TaskWork) (state : σ) : List Chat.Request :=
  (t.artifactsFrom c known τ state).map (deductionRequest c.model t.code)

/-- What the client replies to the requests for the schemas of a task, after its references. -/
def TaskWork.schemaReplies (t : TaskWork) (state : σ) : List Chat.Reply :=
  c.client.replies (t.deductions c known τ state)
    (c.client.after (t.questions c.model known t.references) state)

/-- What is done for a task that is completed: its contract is stored, its references are asked for,
and then the schemas of its JSON artifacts are asked for in order, and each of them is deduced from
its own reply and stored. The last happens side by side. -/
structure DoneFor (state : σ) (t : TaskWork) (ops : List FileOperation)
    (history : List (Nat × Act)) : Prop where
  work : contractWork c l t = .ok ops
  placed : ∀ x ∈ history, x.1 < (t.artifactsFrom c known τ state).length
  asked : (history.map Prod.snd).filterMap Act.question?
    = (t.deductions c known τ state).zip (t.schemaReplies c known τ state)
  deduced : ∀ i a reply, (t.artifactsFrom c known τ state)[i]? = some a →
    (t.schemaReplies c known τ state)[i]? = some reply →
    DeducesSchema c l t total i a reply (actsOf i history)

structure CompletesTask (start : FileTree × σ) (t : TaskWork) (reads writes : List Text)
    (stop : FileTree × σ) : Prop where
  reads : reads = (t.adoptedReads τ (t.replies c known start.2)).map ArtifactWrite.fileName
  writes : writes = (t.adoptedWrites τ (t.replies c known start.2)).map ArtifactWrite.fileName
  schemas : ∃ (ops : List FileOperation) (history : List (Nat × Act)),
    DoneFor c l known total τ start.2 t ops history
      ∧ Performs c start (filedAll ops
        ++ asksOf ((t.questions c.model known t.references).zip (t.replies c known start.2))
        ++ history.map Prod.snd) stop

inductive CompletesTasks : FileTree × σ → List TaskWork → FileTree × σ → Prop where
  | nil (start : FileTree × σ) : CompletesTasks start [] start
  | cons {start middle stop : FileTree × σ} {t : TaskWork} {rest : List TaskWork}
      {reads writes : List Text}
      (first : CompletesTask c l known total τ start t reads writes middle)
      (others : CompletesTasks middle rest stop) : CompletesTasks start (t :: rest) stop

/-- The tasks that are told to be complete have been completed with what is told, after all tasks
before them in the list. -/
def TellsCompleted (tasks : Nat) (start : FileTree × σ) (index : Nat) (work : List TaskWork)
    (told : List Event) : Prop :=
  ∀ p reads writes, .taskComplete p reads writes ∈ told → ∃ earlier t later middle stop,
    work = earlier ++ t :: later ∧ p = ⟨t.task, index + earlier.length, tasks⟩
      ∧ CompletesTasks c l known total τ start earlier middle
      ∧ CompletesTask c l known total τ middle t reads writes stop

end

/-- The names of the artifacts that were adopted for the writes of a task, if an event tells that
the task is complete. -/
def Event.adopted? : Event → Option (List Text)
  | .taskComplete _ _ writes => some writes
  | _ => none

theorem Event.adopted_of_ofArtifact {e : Event} (h : e.ofArtifact = true) : e.adopted? = none := by
  cases e with
  | taskComplete => cases h
  | _ => rfl

section

variable {c : Conditions σ} {l : PipelineLocation} {known : List Text} {total : Nat} {τ : ℚ}

theorem TaskAnswers.length_jobs (b : TaskAnswers) :
    (b.jobs c l total).length = (b.artifacts c).length := by
  rw [jobs, artifactJobs, List.length_map, List.length_zipIdx]

theorem TaskAnswers.map_request_jobs (b : TaskAnswers) :
    (b.jobs c l total).map Job.request
      = (b.artifacts c).map (deductionRequest c.model b.work.code) := by
  rw [jobs, artifactJobs, List.map_map]
  conv_rhs => rw [← List.zipIdx_map_fst 0 (b.artifacts c), List.map_map]
  rfl

theorem TaskAnswers.questionsOf_jobs (b : TaskAnswers) (replies : List Chat.Reply) :
    questionsOf (b.jobs c l total) replies
      = ((b.artifacts c).map (deductionRequest c.model b.work.code)).zip replies := by
  have hrequests : (b.jobs c l total).map Job.request = _ := b.map_request_jobs
  rw [questionsOf, ← hrequests, List.zip_map_left]
  rfl

theorem TaskAnswers.resolutions_eq {b : TaskAnswers} (h : b.IsResolved) :
    b.resolutions c known
      = (b.work.questions c.model known b.work.references).zip (b.reads ++ b.writes) := by
  have hlength : (b.work.questions c.model known b.work.contract.unresolvedReads).length
      = b.reads.length := by
    rw [h.reads, TaskWork.questions, List.length_map]
  rw [b.work.questions_references, List.zip_append hlength]
  rfl

theorem TaskAnswers.length_references {b : TaskAnswers} (h : b.IsResolved) :
    (b.work.questions c.model known b.work.references).length = (b.reads ++ b.writes).length := by
  rw [TaskWork.questions, List.length_map, TaskWork.references, List.length_append,
    List.length_append, h.reads, h.writes]

/-- The answers for the references of a task are what the client replies to its requests, before it
is asked for the artifacts. -/
theorem TaskAnswers.resolved_of_performs {b : TaskAnswers} (hresolved : b.IsResolved)
    {ops : List FileOperation} {later : List Act} {start stop : FileTree × σ}
    (hperforms : Performs c start (filedAll ops ++ asksOf (b.resolutions c known) ++ later) stop) :
    b.reads ++ b.writes = b.work.replies c known start.2
      ∧ ∃ middle, Performs c start (filedAll ops ++ asksOf (b.resolutions c known)) middle
        ∧ Performs c middle later stop
        ∧ middle.2 = c.client.after (b.work.questions c.model known b.work.references) start.2 := by
  obtain ⟨middle, hfront, hlater⟩ := hperforms.append_inv
  obtain ⟨hreplies, hstate⟩ := hfront.replies
  have hlength : (b.work.questions c.model known b.work.references).length = _ :=
    length_references hresolved
  rw [List.filterMap_append, question_filedAll, question_asksOf, resolutions_eq hresolved,
    List.nil_append, List.map_fst_zip (Nat.le_of_eq hlength)] at hreplies hstate
  rw [List.map_snd_zip (Nat.le_of_eq hlength.symm)] at hreplies
  exact ⟨hreplies, middle, hfront, hlater, hstate⟩

theorem TaskAnswers.schemas_of_performs {b : TaskAnswers} {history : List (Nat × Act)}
    {vs : List Unit} (hdone : AllDone c (b.jobs c l total) history b.schemas vs)
    {start stop : FileTree × σ} (hperforms : Performs c start (history.map Prod.snd) stop) :
    b.schemas = c.client.replies ((b.artifacts c).map (deductionRequest c.model b.work.code)) start.2
      ∧ stop.2 = c.client.after ((b.artifacts c).map (deductionRequest c.model b.work.code))
        start.2 := by
  obtain ⟨hreplies, hstate⟩ := hperforms.replies
  have hlength : ((b.artifacts c).map (deductionRequest c.model b.work.code)).length
      = b.schemas.length := by
    rw [hdone.length, b.length_jobs, List.length_map]
  rw [hdone.questions, b.questionsOf_jobs, List.map_fst_zip (Nat.le_of_eq hlength)]
    at hreplies hstate
  rw [List.map_snd_zip (Nat.le_of_eq hlength.symm)] at hreplies
  exact ⟨hreplies, hstate⟩

theorem TaskAnswers.replies_of_performs {b : TaskAnswers} (hresolved : b.IsResolved)
    {ops : List FileOperation} {history : List (Nat × Act)} {vs : List Unit}
    (hdone : AllDone c (b.jobs c l total) history b.schemas vs) {start stop : FileTree × σ}
    (hperforms : Performs c start
      (filedAll ops ++ asksOf (b.resolutions c known) ++ history.map Prod.snd) stop) :
    b.reads ++ b.writes = b.work.replies c known start.2
      ∧ b.schemas = c.client.replies ((b.artifacts c).map (deductionRequest c.model b.work.code))
        (c.client.after (b.work.questions c.model known b.work.references) start.2) := by
  obtain ⟨hresolutions, middle, -, hlater, hstate⟩ := resolved_of_performs hresolved hperforms
  have hreplies := (schemas_of_performs hdone hlater).1
  rw [hstate] at hreplies
  exact ⟨hresolutions, hreplies⟩

theorem TaskAnswers.adoptedReads_eq (hτ : c.settings.confidenceThreshold.value? = some τ)
    {b : TaskAnswers} (h : b.IsResolved) :
    b.adoptedReads c = b.work.adoptedReads τ (b.reads ++ b.writes) := by
  rw [b.work.adoptedReads_append h.reads]
  exact Run.adopted_eq hτ _ _

theorem TaskAnswers.adoptedWrites_eq (hτ : c.settings.confidenceThreshold.value? = some τ)
    {b : TaskAnswers} (h : b.IsResolved) :
    b.adoptedWrites c = b.work.adoptedWrites τ (b.reads ++ b.writes) := by
  rw [b.work.adoptedWrites_append h.reads]
  exact Run.adopted_eq hτ _ _

theorem deduces_of_allDone {b : TaskAnswers} {history : List (Nat × Act)} {vs : List Unit}
    (hdone : AllDone c (b.jobs c l total) history b.schemas vs) {i : Nat} {a : ArtifactWrite}
    {reply : Chat.Reply} (ha : (b.artifacts c)[i]? = some a)
    (hreply : b.schemas[i]? = some reply) :
    DeducesSchema c l b.work total i a reply (actsOf i history) := by
  have hjob : (b.jobs c l total)[i]? = some (artifactJob c l b.work total i a) :=
    getElem?_artifactJobs_of ha
  obtain ⟨u, -, hcompletes⟩ := hdone.completes hjob hreply
  obtain ⟨d, ops, hschema, hwork, hcourse⟩ := completes_artifactJob hcompletes
  rw [hdone.course i _ _ hjob hreply, hcourse]
  exact .stored hschema hwork

theorem TaskCourse.completes (hτ : c.settings.confidenceThreshold.value? = some τ) {t : TaskWork}
    {count : Nat} {reads writes : List Text} {acts : List Act} {start stop : FileTree × σ}
    (h : TaskCourse c l known total t (.ok (count, reads, writes)) acts)
    (hperforms : Performs c start acts stop) :
    CompletesTask c l known total τ start t reads writes stop := by
  obtain ⟨b, ops, history, vs, rfl, resolved, work, gathered, hresult, rfl⟩ := h.of_ok
  obtain ⟨-, hnames⟩ := Prod.mk.inj hresult
  obtain ⟨rfl, rfl⟩ := Prod.mk.inj hnames
  have hdone := gathered.done vs rfl
  obtain ⟨hreplies, hschemas⟩ := TaskAnswers.replies_of_performs resolved hdone hperforms
  have hartifacts : b.artifacts c = b.work.artifactsFrom c known τ start.2 := by
    rw [TaskAnswers.artifacts, TaskAnswers.adoptedWrites_eq hτ resolved, hreplies]
    rfl
  rw [TaskAnswers.resolutions_eq resolved] at hperforms
  rw [hartifacts] at hschemas
  refine ⟨?reads, ?writes, ops, history, ⟨work, ?placed, ?asked, ?deduced⟩, ?performs⟩
  case reads => rw [TaskAnswers.adoptedReads_eq hτ resolved, hreplies]
  case writes => rw [TaskAnswers.adoptedWrites_eq hτ resolved, hreplies]
  case placed =>
    intro x hx
    have hlt := gathered.known x hx
    rwa [hdone.length, b.length_jobs, hartifacts] at hlt
  case asked =>
    rw [hdone.questions, b.questionsOf_jobs, hartifacts, hschemas]
    rfl
  case deduced =>
    intro i a reply ha hreply
    refine deduces_of_allDone hdone (hartifacts ▸ ha) ?_
    rw [hschemas]
    exact hreply
  case performs =>
    rw [← hreplies]
    exact hperforms

/-! ## Runs -/

section

variable {tasks index : Nat} {start middle stop : FileTree × σ} {t : TaskWork}
  {work rest : List TaskWork} {told front back : List Event} {reads writes : List Text}
  {acts : List Act}

theorem tellsCompleted_quiet (h : ∀ e ∈ told, e.adopted? = none) :
    TellsCompleted c l known total τ tasks start index work told := by
  intro p reads writes hmem
  cases h _ hmem

theorem tellsCompleted_append
    (hfront : TellsCompleted c l known total τ tasks start index work front)
    (hback : TellsCompleted c l known total τ tasks start index work back) :
    TellsCompleted c l known total τ tasks start index work (front ++ back) := by
  intro p reads writes hmem
  rcases List.mem_append.mp hmem with hmem | hmem
  · exact hfront p reads writes hmem
  · exact hback p reads writes hmem

theorem tellsCompleted_first (h : CompletesTask c l known total τ start t reads writes middle) :
    TellsCompleted c l known total τ tasks start index (t :: rest)
      [.taskComplete ⟨t.task, index, tasks⟩ reads writes] := by
  intro p reads' writes' hmem
  cases List.mem_singleton.mp hmem
  exact ⟨[], t, rest, start, middle, rfl, rfl, .nil start, h⟩

theorem tellsCompleted_later (h : CompletesTask c l known total τ start t reads writes middle)
    (hrest : TellsCompleted c l known total τ tasks middle (index + 1) rest told) :
    TellsCompleted c l known total τ tasks start index (t :: rest) told := by
  intro p reads' writes' hmem
  obtain ⟨earlier, t', later, middle', stop, rfl, rfl, hearlier, hlast⟩ := hrest p _ _ hmem
  refine ⟨t :: earlier, t', later, middle', stop, rfl, ?_, .cons h hearlier, hlast⟩
  rw [List.length_cons, Nat.add_right_comm, Nat.add_assoc]

/-- What is told of a task up to its end says nothing of what has been adopted. -/
theorem TaskCourse.quiet {r : Except Trouble (Nat × List Text × List Text)}
    (h : TaskCourse c l known total t r acts) (p : TaskProgress) :
    ∀ e ∈ Event.taskStart p :: acts.filterMap Act.event?, e.adopted? = none := by
  obtain ⟨artifacts, htells, -⟩ := h.tells
  refine List.forall_mem_cons.mpr ⟨rfl, fun e he => ?_⟩
  exact Event.adopted_of_ofArtifact (htells.only e he)

theorem TasksCourse.tellsCompleted (hτ : c.settings.confidenceThreshold.value? = some τ)
    {r : Except Trouble Nat} (h : TasksCourse c l known total tasks index work r acts)
    (hperforms : Performs c start acts stop) :
    TellsCompleted c l known total τ tasks start index work (acts.filterMap Act.event?) := by
  induction h generalizing start with
  | nil index => exact tellsCompleted_quiet (List.forall_mem_nil _)
  | unbegun _ => exact tellsCompleted_quiet (List.forall_mem_singleton.mpr rfl)
  | failed course => exact tellsCompleted_quiet (course.quiet _)
  | @unclosed index count reads writes t rest m acts course _ =>
      obtain ⟨middle, hfront, -⟩ := hperforms.told_inv.append_inv
      have hfirst := course.completes hτ hfront
      show TellsCompleted _ _ _ _ _ _ _ _ _ (_ :: (acts ++ _).filterMap Act.event?)
      rw [List.filterMap_append]
      exact tellsCompleted_append (tellsCompleted_quiet (course.quiet _))
        (tellsCompleted_first hfirst)
  | @cons index count reads writes t rest r acts later _ course _ _ ih =>
      obtain ⟨middle, hfront, hback⟩ := hperforms.told_inv.append_inv
      have hfirst := course.completes hτ hfront
      show TellsCompleted _ _ _ _ _ _ _ _ _ (_ :: (acts ++ _ :: later).filterMap Act.event?)
      rw [List.append_cons, List.filterMap_append, List.filterMap_append]
      exact tellsCompleted_append (tellsCompleted_append
        (tellsCompleted_quiet (course.quiet _)) (tellsCompleted_first hfirst))
        (tellsCompleted_later hfirst (ih hback.told_inv))

end

theorem RunCourse.tellsCompleted (hτ : c.settings.confidenceThreshold.value? = some τ)
    {work : List TaskWork} {r : Except Trouble Summary} {acts : List Act} {start stop : FileTree × σ}
    (h : RunCourse c l work r acts) (hperforms : Performs c start acts stop) :
    TellsCompleted c l (Run.knownArtifacts work) (Run.artifactCount work) τ work.length start 0 work
      (acts.filterMap Act.event?) := by
  have hquiet : ∀ {e : Event}, e.adopted? = none →
      TellsCompleted c l (Run.knownArtifacts work) (Run.artifactCount work) τ work.length start 0
        work [e] := fun he => tellsCompleted_quiet (List.forall_mem_singleton.mpr he)
  have hclosed : ∀ {r : Except Trouble Nat} {acts : List Act} {s : Summary},
      TasksCourse c l (Run.knownArtifacts work) (Run.artifactCount work) work.length 0 work r acts →
      Performs c start (.told (.started l.slug work.length (Run.artifactCount work))
        :: (acts ++ [Act.told (.complete s)])) stop →
      TellsCompleted c l (Run.knownArtifacts work) (Run.artifactCount work) τ work.length start 0
        work (.started l.slug work.length (Run.artifactCount work)
          :: (acts ++ [Act.told (.complete s)]).filterMap Act.event?) := by
    intro r acts s hcourse hperforms
    obtain ⟨middle, hfront, -⟩ := hperforms.told_inv.append_inv
    rw [List.filterMap_append]
    exact tellsCompleted_append (hquiet rfl)
      (tellsCompleted_append (hcourse.tellsCompleted hτ hfront) (hquiet rfl))
  cases h with
  | unbegun _ => exact hquiet rfl
  | failed course =>
      exact tellsCompleted_append (hquiet rfl) (course.tellsCompleted hτ hperforms.told_inv)
  | unclosed course _ => exact hclosed course hperforms
  | done _ course _ => exact hclosed course hperforms

/-- What a run tells of completed tasks, wherever it stops. -/
theorem ReportedCourse.tellsCompleted (hτ : c.settings.confidenceThreshold.value? = some τ)
    {files : FileTree} {state : σ} {r : Except Trouble Summary} {acts : List Act}
    {stop : FileTree × σ} (h : ReportedCourse c l files r acts)
    (hperforms : Performs c (files, state) acts stop) :
    (∀ e ∈ acts.filterMap Act.event?, e.adopted? = none)
      ∨ ∃ work, Run.prepared l files = .ok work
        ∧ TellsCompleted c l (Run.knownArtifacts work) (Run.artifactCount work) τ work.length
          (files, state) 0 work (acts.filterMap Act.event?) := by
  have hevent : ∀ e : Trouble, ∀ event ∈ [e.event], event.adopted? = none := by
    intro e
    refine List.forall_mem_singleton.mpr ?_
    cases e <;> rfl
  cases h with
  | early _ => exact Or.inl (hevent _)
  | succeeded prepared course => exact Or.inr ⟨_, prepared, course.tellsCompleted hτ hperforms⟩
  | failed prepared course =>
      obtain ⟨middle, hfront, -⟩ := hperforms.append_inv
      rw [List.filterMap_append]
      exact Or.inr ⟨_, prepared, tellsCompleted_append (course.tellsCompleted hτ hfront)
        (tellsCompleted_quiet (hevent _))⟩

end

/-- **References are adopted by their own replies.** Whatever the client replies to the references
of a task, the work on the task goes on; the reply to a reference decides on the entry of that
reference only; and whenever a run tells that a task is complete, the artifacts that it tells have
been adopted for the references, in their order, by the replies to them, and the schemas that have
been deduced are those of the JSON artifacts by the contract and then of those adopted. -/
theorem references_by_replies (c : Conditions σ) (l : PipelineLocation) {τ : ℚ}
    (hτ : c.settings.confidenceThreshold.value? = some τ) :
    (∀ known total t, Run.processTask c l known total t = (do
        Run.storeContract c l t
        let replies ← Run.ask c (t.questions c.model known t.references)
        Run.finish c l total t (t.adoptedReads τ replies) (t.adoptedWrites τ replies)))
      ∧ (∀ (t : TaskWork) (front back : List Chat.Reply), front.length < t.references.length →
        ∃ before r later, t.references = before ++ r :: later ∧ before.length = front.length
          ∧ ((∃ reads reads' writes, ∀ reply,
              t.adoptedReads τ (front ++ reply :: back)
                = reads ++ (r.adopted? τ reply).toList ++ reads'
              ∧ t.adoptedWrites τ (front ++ reply :: back) = writes)
            ∨ ∃ reads writes writes', ∀ reply, t.adoptedReads τ (front ++ reply :: back) = reads
              ∧ t.adoptedWrites τ (front ++ reply :: back)
                = writes ++ (r.adopted? τ reply).toList ++ writes'))
      ∧ ∀ w : World σ, ∃ told : List Event,
        (analyzePipeline c l w).2.events = told.reverse ++ w.events
        ∧ ∀ p reads writes, .taskComplete p reads writes ∈ told →
          ∃ work earlier t later start stop, Run.prepared l w.files = .ok work
            ∧ work = earlier ++ t :: later ∧ p = ⟨t.task, earlier.length, work.length⟩
            ∧ CompletesTasks c l (Run.knownArtifacts work) (Run.artifactCount work) τ
              (w.files, w.client) earlier start
            ∧ CompletesTask c l (Run.knownArtifacts work) (Run.artifactCount work) τ start t reads
              writes stop := by
  refine ⟨Run.processTask_asks hτ, TaskWork.adopted_own_entry, ?_⟩
  intro w
  by_cases hlock : AcquiresLock l w
  · obtain ⟨r, acts, -, hpasses, hcourse⟩ := analyzePipeline_course (c := c) hlock
    refine ⟨_, hpasses.events, ?_⟩
    intro p reads writes hmem
    rcases hcourse.tellsCompleted hτ hpasses.performs with hnone | ⟨work, hprepared, htells⟩
    · cases hnone _ hmem
    · obtain ⟨earlier, t, later, start, stop, hsplit, hp, hearlier, hcomplete⟩ := htells p _ _ hmem
      rw [Nat.zero_add] at hp
      exact ⟨work, earlier, t, later, start, stop, hprepared, hsplit, hp, hearlier, hcomplete⟩
  · obtain ⟨e, he⟩ := analyzePipeline_of_not_acquires (c := c) hlock
    rw [he]
    exact ⟨[], rfl, nofun⟩

/-- A task with a computed name that it reads and two that it writes. -/
def threeReferences : FileTree :=
  { entries := [([Text.ofString "p"], .directory),
      ([Text.ofString "p", Text.ofString "pipeline.json"],
        .file (Text.ofString "\x7b\"tasks\":[\"a\"]\x7d")),
      ([Text.ofString "p", Text.ofString "a.js"], .file (Text.ofString
        "export function f()\x7bio.readArtifact(m);io.writeArtifact(n);io.writeArtifact(o)\x7d"))]
    current := [] }

/-- No response, a guess without confidence, and the text of a sure guess, which are replied one
after another. -/
def mixedReplies : List Chat.Reply :=
  [.nothing, .response (.object [("resolvedFileName", .ofString "x.txt")]),
    .response (.ofString "\x7b\"resolvedFileName\": \"y.txt\", \"confidence\": 7\x7d")]

/-- A client that is told what to reply, and guesses that are adopted only if they are sure. -/
def toldConditions : Conditions (List Chat.Reply) :=
  { client := fun _ replies => (replies.headD .nothing, replies.tail)
    settings := { confidenceThreshold := .one }
    now := ⟨2026, 1, 2, 3, 4, 5, 0⟩ }

set_option maxRecDepth 100000 in
theorem threeReferences_adopted :
    ((analyzePipeline toldConditions flatLocation
        { files := threeReferences, client := mixedReplies }).2.events.findSome? fun
      | .taskComplete p reads writes => some (p.index, reads, writes)
      | _ => none) = some (0, [], [Text.ofString "y.txt"]) := by
  decide +kernel

/-- Only the last reference is adopted for, by its own reply. -/
theorem threeReferences_by_replies :
    toldConditions.settings.confidenceThreshold.value? = some 1
      ∧ ∃ work t start stop, Run.prepared flatLocation threeReferences = .ok work
        ∧ work[0]? = some t
        ∧ CompletesTask toldConditions flatLocation (Run.knownArtifacts work)
          (Run.artifactCount work) 1 start t []
          [Text.ofString "y.txt"] stop := by
  have hτ : toldConditions.settings.confidenceThreshold.value? = some 1 := by
    simp only [toldConditions, Binary64.value_one]
  refine ⟨hτ, ?_⟩
  obtain ⟨-, -, hruns⟩ := references_by_replies toldConditions flatLocation hτ
  obtain ⟨told, hevents, hcomplete⟩ := hruns { files := threeReferences, client := mixedReplies }
  have hadopted := threeReferences_adopted
  rw [hevents, List.append_nil] at hadopted
  obtain ⟨e, he, hfound⟩ := List.exists_of_findSome?_eq_some hadopted
  cases e with
  | taskComplete p reads writes =>
      obtain ⟨hindex, rfl, rfl⟩ : p.index = 0 ∧ reads = [] ∧ writes = [Text.ofString "y.txt"] := by
        simpa using hfound
      obtain ⟨work, earlier, t, later, start, stop, hprepared, rfl, hp, -, hlast⟩ :=
        hcomplete p _ _ (List.mem_reverse.mp he)
      obtain rfl : earlier = [] := by
        rw [hp] at hindex
        exact List.length_eq_zero_iff.mp hindex
      exact ⟨_, t, start, stop, hprepared, rfl, hlast⟩
  | _ => cases hfound

end TaskContract
