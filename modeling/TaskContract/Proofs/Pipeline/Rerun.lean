import TaskContract.Proofs.Pipeline.Inputs

/-!
# A successful run is repeated

All that a successful run has done can be done again on its own results. So a second run of the
same pipeline, with the client in its first state, makes the same requests, and no part of it can
fail, whichever of the steps that are possible side by side come first. If these are the same as in
the first run, the second run tells the same and leaves every file as it is. Otherwise the artifacts
of a task may be complete in another order, and only where some of them have the same files does it
matter to these.
-/

namespace TaskContract

variable {σ : Type}

/-! ## Requests and their replies -/

section

variable {α : Type} {c : Conditions σ} {jobs : List (Job α)} {replies : List Chat.Reply}

theorem map_fst_questionsOf (jobs : List (Job α)) (replies : List Chat.Reply) :
    (questionsOf jobs replies).map Prod.fst = (jobs.take replies.length).map Job.request := by
  induction jobs generalizing replies with
  | nil =>
      rw [List.take_nil]
      rfl
  | cons job rest ih =>
      cases replies with
      | nil => rfl
      | cons reply others => exact congrArg (job.request :: ·) (ih others)

theorem map_snd_questionsOf (h : replies.length ≤ jobs.length) :
    (questionsOf jobs replies).map Prod.snd = replies := by
  rw [questionsOf, List.map_map]
  exact List.map_snd_zip h

theorem replies_of_questions (h : replies.length ≤ jobs.length) {start stop : FileTree × σ}
    {acts : List Act} (hperforms : Performs c start acts stop)
    (hquestions : acts.filterMap Act.question? = questionsOf jobs replies) :
    replies = c.client.replies ((jobs.take replies.length).map Job.request) start.2 := by
  have hreplies := hperforms.replies.1
  rwa [hquestions, map_snd_questionsOf h, map_fst_questionsOf] at hreplies

end

/-! ## Artifacts that are gathered again -/

/-- A job that can be completed fails only if one of its operations does. -/
theorem Fault.cut_of_completes {α : Type} {c : Conditions σ} {job : Job α} {reply : Chat.Reply}
    {acts : List Act} {t : Trouble} {a : α} (h : Fault c job reply acts t)
    (hcompletes : Completes c job reply a) :
    ∃ op e, .filed op (.error e) ∈ acts ∧ .filed op (.ok ()) ∈ job.course reply := by
  have haccepted := hcompletes.accepted
  cases h with
  | refused opening refusal =>
      rw [haccepted _ opening] at refusal
      cases refusal
  | failure conclusion =>
      cases hcompletes with
      | result _ conclusion' | filing _ conclusion' _ _ =>
          rw [conclusion] at conclusion'
          cases conclusion'
  | work conclusion work =>
      cases hcompletes with
      | result _ conclusion' =>
          rw [conclusion] at conclusion'
          cases conclusion'
      | filing _ conclusion' work' _ =>
          rw [conclusion] at conclusion'
          obtain rfl := Conclusion.filing.inj conclusion'
          rw [work] at work'
          cases work'
  | @cut f front op back conclusion work e =>
      refine ⟨op, e, List.mem_append_right _ (List.mem_singleton_self _), ?_⟩
      rw [Job.course_filing conclusion work]
      refine List.mem_append_left _ (List.mem_append_right _ ?_)
      exact List.mem_map_of_mem (List.mem_append_right _ List.mem_cons_self)
  | closing conclusion work refusal =>
      cases hcompletes with
      | result _ conclusion' =>
          rw [conclusion] at conclusion'
          cases conclusion'
      | filing _ conclusion' _ closing =>
          rw [conclusion] at conclusion'
          obtain rfl := Conclusion.filing.inj conclusion'
          rw [closing] at refusal
          cases refusal

section

variable {α : Type} {c : Conditions σ} {schedule : Nat → Nat} {jobs : List (Job α)}

/-- Whether a job can be completed does not depend on when it is. -/
theorem Completes.reschedule {job : Job α} {reply : Chat.Reply} {a : α}
    (h : Completes c job reply a) : Completes { c with schedule } job reply a := by
  cases h with
  | result accepted conclusion => exact .result accepted conclusion
  | filing accepted conclusion work closing => exact .filing accepted conclusion work closing

/-- **Jobs that have all been done are done again**, with the same replies, if what they have stored
can be stored again. -/
theorem Gathered.repeated {names : Nat → Text} {history history' : List (Nat × Act)}
    {replies replies' : List Chat.Reply} {vs : List α} {r : Except Trouble (List α)}
    (hdone : AllDone c jobs history replies vs)
    (h : Gathered { c with schedule } jobs names history' replies' r)
    {start stop start' stop' : FileTree × σ} {t : FileTree}
    (hperforms : Performs c start (history.map Prod.snd) stop)
    (hperforms' : Performs { c with schedule } start' (history'.map Prod.snd) stop')
    (hclient : start'.2 = start.2) (ht : t.Grows start'.1)
    (hrepeats : ∀ op ∈ opsOf (history.map Prod.snd), t.Repeats c.disk op) :
    replies' = replies ∧ ∃ vs', r = .ok vs' := by
  have hcompletes : ∀ {i : Nat} {job : Job α}, jobs[i]? = some job → ∃ reply a,
      replies[i]? = some reply ∧ Completes c job reply a := by
    intro i job hjob
    have hi : i < replies.length := by
      rw [hdone.length]
      exact (List.getElem?_eq_some_iff.mp hjob).1
    obtain ⟨a, -, hcompletes⟩ := hdone.completes hjob (List.getElem?_eq_getElem hi)
    exact ⟨_, a, List.getElem?_eq_getElem hi, hcompletes⟩
  have haccepted : ∀ job ∈ jobs, job.Accepted c := by
    intro job hjob
    obtain ⟨i, hi⟩ := List.getElem?_of_mem hjob
    obtain ⟨_, _, -, hcompletes⟩ := hcompletes hi
    exact hcompletes.accepted
  have hfront : replies' <+: replies := by
    have hall := replies_of_questions (Nat.le_of_eq hdone.length) hperforms hdone.questions
    have hsome := replies_of_questions h.count hperforms' (h.asked haccepted)
    rw [hdone.length, List.take_length] at hall
    rw [hclient] at hsome
    rw [hall, hsome, ← List.take_append_drop replies'.length jobs, List.map_append,
      Chat.Client.replies_append, List.take_append_drop]
    exact List.prefix_append _ _
  cases r with
  | ok vs' =>
      have hlength := (h.done vs' rfl).length
      exact ⟨hfront.eq_of_length (hlength.trans hdone.length.symm), vs', rfl⟩
  | error e =>
      obtain ⟨i, job, reply, acts, hjob, hreply, hacts, hfault⟩ := h.failed e rfl
      obtain ⟨reply', a, hreply', hcompletes⟩ := hcompletes hjob
      obtain rfl : reply' = reply := by
        obtain ⟨rest, rfl⟩ := hfront
        rw [List.getElem?_append_left (List.getElem?_eq_some_iff.mp hreply).1, hreply] at hreply'
        exact (Option.some.inj hreply').symm
      obtain ⟨op, e, hcut, hop⟩ := hfault.cut_of_completes hcompletes.reschedule
      rw [← hdone.course i job reply' hjob hreply'] at hop
      exact absurd (mem_of_mem_actsOf (hacts.subset hcut))
        (hperforms'.not_cut ht (hrepeats op (mem_opsOf (mem_of_mem_actsOf hop))))

end

/-! ## Tasks that are done again -/

section

variable {c : Conditions σ} {schedule : Nat → Nat} {l : PipelineLocation} {known : List Text}
  {total : Nat} {start stop start' stop' : FileTree × σ} {t : FileTree}

/-- A contract that can be stored again is not a failure. -/
theorem StoresContract.not_fails {task : TaskWork} {e : Trouble} {acts : List Act}
    (h : StoresContract c l task (.error e) acts)
    (hwork : contractWork c l task
      = .ok [.makeRoom (l.configDir / "analysis"), contractWrite c l task])
    (hperforms : Performs c start acts stop) (ht : t.Grows start.1)
    (hrepeats : ∀ op, OfContract c l task op → t.Repeats c.disk op) : False := by
  generalize hr : Except.error e = r at h
  cases h with
  | unfit work =>
      rw [work] at hwork
      cases hwork
  | files work files =>
      rw [work] at hwork
      obtain rfl := Except.ok.inj hwork
      cases files with
      | all => cases hr
      | @upTo front op back split e =>
          have hop : op ∈ [.makeRoom (l.configDir / "analysis"), contractWrite c l task] :=
            split ▸ List.mem_append_right _ List.mem_cons_self
          have hcontract : OfContract c l task op := by
            rcases List.mem_cons.mp hop with rfl | hop
            · exact Or.inl rfl
            · exact Or.inr (List.mem_singleton.mp hop)
          exact hperforms.not_cut ht (hrepeats op hcontract)
            (List.mem_append_right _ (List.mem_singleton_self _))

/-- **A task that has been done is done again**, with the same replies and the same result. -/
theorem DoneTask.IsDone.repeated {x : DoneTask} (h : x.IsDone c l total)
    (hperforms : Performs c start (x.acts c l known) stop)
    {r : Except Trouble (Nat × List Text × List Text)} {acts : List Act}
    (hcourse : TaskCourse { c with schedule } l known total x.task r acts)
    (hperforms' : Performs { c with schedule } start' acts stop')
    (hclient : start'.2 = start.2) (ht : t.Grows start'.1)
    (hrepeats : ∀ op ∈ opsOf (x.acts c l known), t.Repeats c.disk op) :
    ∃ y : DoneTask, y.answers = x.answers ∧ y.IsDone { c with schedule } l total
      ∧ acts = y.acts { c with schedule } l known ∧ r = .ok (x.answers.result c)
      ∧ stop'.2 = stop.2 := by
  obtain ⟨hresolved, hcontract, vs, hgathered⟩ := h
  have hdone := hgathered.done vs rfl
  cases hcourse with
  | unstored store =>
      refine (store.not_fails hcontract hperforms' ht fun op hop => ?_).elim
      refine hrepeats op (List.mem_filterMap.mpr ⟨.filed op (.ok ()), ?_, rfl⟩)
      refine List.mem_append_left _ (List.mem_append_left _ (List.mem_map_of_mem ?_))
      rcases hop with rfl | rfl
      · exact List.mem_cons_self
      · exact List.mem_cons_of_mem _ List.mem_cons_self
  | @gathered b ops history r task resolved work gathered =>
      obtain rfl := contractWork_eq work
      obtain ⟨hreplies, middle, -, hlater, hmiddle⟩ :=
        TaskAnswers.resolved_of_performs hresolved hperforms
      obtain ⟨hreplies', middle', hfront', hlater', hmiddle'⟩ :=
        TaskAnswers.resolved_of_performs resolved hperforms'
      -- the references have the same replies, and so the artifacts are the same
      have hsame : b.reads ++ b.writes = x.answers.reads ++ x.answers.writes := by
        rw [hreplies, hreplies', task, hclient]
        rfl
      obtain ⟨hreads, hwrites⟩ := List.append_inj hsame (by
        rw [resolved.reads, hresolved.reads, task]
        rfl)
      obtain ⟨task', reads, writes, schemas⟩ := b
      obtain rfl : task' = x.answers.work := task
      obtain rfl : reads = x.answers.reads := hreads
      obtain rfl : writes = x.answers.writes := hwrites
      have hgrows : t.Grows middle'.1 := ht.trans hfront'.grows
      have hstate : middle'.2 = middle.2 := by
        rw [hmiddle, hmiddle', hclient]
      obtain ⟨rfl, vs', rfl⟩ := gathered.repeated hdone hlater hlater' hstate hgrows
        fun op hop => hrepeats op (by
          rw [acts, opsOf_append]
          exact List.mem_append_right _ hop)
      refine ⟨⟨x.answers, history⟩, rfl, ⟨hresolved, work, vs', gathered⟩, rfl, rfl, ?_⟩
      have hquestions := (gathered.done vs' rfl).questions
      rw [hlater'.replies.2, hlater.replies.2, hdone.questions, hquestions, hstate]
      rfl

/-- Tasks that have been done are done again, in the same order. -/
theorem TasksCourse.repeated {tasks index count : Nat} {work : List TaskWork} {acts : List Act}
    (h : TasksCourse c l known total tasks index work (.ok count) acts)
    (hperforms : Performs c start acts stop) :
    ∃ xs, AreDone c l total work xs ∧ acts = DoneTask.courses c l known tasks index xs
      ∧ ∀ {schedule : Nat → Nat} {t : FileTree} {start' stop' : FileTree × σ}
          {r : Except Trouble Nat} {acts' : List Act},
        TasksCourse { c with schedule } l known total tasks index work r acts' →
        Performs { c with schedule } start' acts' stop' → start'.2 = start.2 → t.Grows start'.1 →
        (∀ op ∈ opsOf acts, t.Repeats c.disk op) →
        ∃ ys, AreDone { c with schedule } l total work ys
          ∧ ys.map DoneTask.answers = xs.map DoneTask.answers
          ∧ acts' = DoneTask.courses { c with schedule } l known tasks index ys
          ∧ r = .ok count ∧ stop'.2 = stop.2 := by
  generalize hr : Except.ok count = ok at h
  induction h generalizing count start with
  | nil index =>
      obtain rfl := Except.ok.inj hr
      obtain rfl := hperforms.nil_inv
      refine ⟨[], ⟨rfl, List.forall_mem_nil _⟩, rfl, ?_⟩
      intro schedule t start' stop' r acts' h' hperforms' hclient _ _
      cases h'
      obtain rfl := hperforms'.nil_inv
      exact ⟨[], ⟨rfl, List.forall_mem_nil _⟩, rfl, rfl, rfl, hclient⟩
  | unbegun _ | failed _ | unclosed _ _ => cases hr
  | @cons index n reads writes task rest r₀ acts later begun course closed others ih =>
      cases r₀ with
      | error e => cases hr
      | ok m =>
          obtain rfl := Except.ok.inj hr
          obtain ⟨x, rfl, hx, rfl, hresult⟩ := course.done_task
          obtain ⟨middle, hfirst, hothers⟩ := hperforms.told_inv.append_inv
          obtain ⟨xs, hxs, rfl, hagain⟩ := ih hothers.told_inv rfl
          obtain ⟨rfl, hnames⟩ := Prod.mk.inj hresult
          obtain ⟨rfl, rfl⟩ := Prod.mk.inj hnames
          refine ⟨x :: xs, ⟨?_, List.forall_mem_cons.mpr ⟨hx, hxs.done⟩⟩, ?_, ?_⟩
          · rw [List.map_cons, hxs.tasks]
          · rw [DoneTask.courses, DoneTask.course, List.cons_append, List.append_assoc]
            rfl
          intro schedule t start' stop' r acts' h' hperforms' hclient ht hrepeats
          have hrepeats' : ∀ op ∈ opsOf (x.acts c l known)
              ++ opsOf (DoneTask.courses c l known tasks (index + 1) xs), t.Repeats c.disk op := by
            intro op hop
            refine hrepeats op ?_
            show op ∈ opsOf (x.acts c l known ++ _ :: DoneTask.courses c l known tasks (index + 1) xs)
            rw [opsOf_append]
            exact hop
          obtain ⟨hrepeatsFirst, hrepeatsRest⟩ := List.forall_mem_append.mp hrepeats'
          cases h' with
          | unbegun refusal =>
              rw [begun] at refusal
              cases refusal
          | failed course' =>
              obtain ⟨_, -, -, -, hresult', -⟩ :=
                hx.repeated hfirst course' hperforms'.told_inv hclient ht hrepeatsFirst
              cases hresult'
          | unclosed course' refusal =>
              obtain ⟨_, hfirst', -⟩ := hperforms'.told_inv.append_inv
              obtain ⟨_, -, -, -, hresult', -⟩ :=
                hx.repeated hfirst course' hfirst' hclient ht hrepeatsFirst
              obtain ⟨rfl, hnames⟩ := Prod.mk.inj (Except.ok.inj hresult')
              obtain ⟨rfl, rfl⟩ := Prod.mk.inj hnames
              rw [closed] at refusal
              cases refusal
          | cons _ course' _ others' =>
              obtain ⟨middle', hfirst', hrest'⟩ := hperforms'.told_inv.append_inv
              obtain ⟨y, hanswers, hy, rfl, hresult', hmiddle⟩ :=
                hx.repeated hfirst course' hfirst' hclient ht hrepeatsFirst
              obtain ⟨rfl, hnames⟩ := Prod.mk.inj (Except.ok.inj hresult')
              obtain ⟨rfl, rfl⟩ := Prod.mk.inj hnames
              obtain ⟨ys, hys, hsame, rfl, rfl, hstop⟩ := hagain others' hrest'.told_inv hmiddle
                (ht.trans hfirst'.grows) hrepeatsRest
              have htask : y.task = x.task := congrArg TaskAnswers.work hanswers
              refine ⟨y :: ys, ⟨?_, List.forall_mem_cons.mpr ⟨hy, hys.done⟩⟩, ?_, ?_, rfl, hstop⟩
              · rw [List.map_cons, hys.tasks, htask]
              · rw [List.map_cons, List.map_cons, hsame, hanswers]
              · rw [DoneTask.courses, DoneTask.course, List.cons_append, List.append_assoc, htask,
                  hanswers]
                rfl

/-- **What a successful run has done is done again.** -/
theorem RunCourse.repeated {work : List TaskWork} {s : Summary} {acts : List Act}
    (h : RunCourse c l work (.ok s) acts) (hperforms : Performs c start acts stop) :
    ∃ xs, AreDone c l (Run.artifactCount work) work xs ∧ acts = runActs c l work s xs
      ∧ ∀ {schedule : Nat → Nat} {t : FileTree} {start' stop' : FileTree × σ}
          {r : Except Trouble Summary} {acts' : List Act},
        RunCourse { c with schedule } l work r acts' →
        Performs { c with schedule } start' acts' stop' → start'.2 = start.2 → t.Grows start'.1 →
        (∀ op ∈ opsOf acts, t.Repeats c.disk op) →
        ∃ ys, AreDone { c with schedule } l (Run.artifactCount work) work ys
          ∧ ys.map DoneTask.answers = xs.map DoneTask.answers
          ∧ acts' = runActs { c with schedule } l work s ys ∧ r = .ok s ∧ stop'.2 = stop.2 := by
  generalize hr : Except.ok s = ok at h
  cases h with
  | unbegun _ | failed _ | unclosed _ _ => cases hr
  | @done count acts begun course closed =>
      obtain rfl := Except.ok.inj hr
      obtain ⟨middle, htasks, hperforms⟩ := hperforms.told_inv.append_inv
      obtain rfl := hperforms.told_inv.nil_inv
      obtain ⟨xs, hxs, rfl, hagain⟩ := course.repeated htasks
      refine ⟨xs, hxs, rfl, ?_⟩
      intro schedule t start' stop' r acts' h' hperforms' hclient ht hrepeats
      have hrepeats' : ∀ op ∈ opsOf (DoneTask.courses c l (Run.knownArtifacts work) work.length 0 xs),
          t.Repeats c.disk op := by
        intro op hop
        refine hrepeats op ?_
        show op ∈ opsOf (DoneTask.courses c l (Run.knownArtifacts work) work.length 0 xs ++ _)
        rw [opsOf_append]
        exact List.mem_append_left _ hop
      cases h' with
      | unbegun refusal =>
          rw [begun] at refusal
          cases refusal
      | failed course' =>
          obtain ⟨_, -, -, -, hresult, -⟩ :=
            hagain course' hperforms'.told_inv hclient ht hrepeats'
          cases hresult
      | unclosed course' refusal =>
          obtain ⟨_, htasks', -⟩ := hperforms'.told_inv.append_inv
          obtain ⟨_, -, -, -, hresult, -⟩ := hagain course' htasks' hclient ht hrepeats'
          obtain rfl := Except.ok.inj hresult
          rw [closed] at refusal
          cases refusal
      | done _ course' _ =>
          obtain ⟨middle', htasks', hrest'⟩ := hperforms'.told_inv.append_inv
          obtain rfl := hrest'.told_inv.nil_inv
          obtain ⟨ys, hys, hsame, rfl, hresult, hstop⟩ := hagain course' htasks' hclient ht hrepeats'
          obtain rfl := Except.ok.inj hresult
          exact ⟨ys, hys, hsame, rfl, rfl, hstop⟩

end

/-! ## What is told again -/

/-- What is told in a block, but for the order in which its artifacts are complete. -/
structure Heading where
  progress : TaskProgress
  artifacts : List ArtifactProgress
  resolvedReads : List Text
  resolvedWrites : List Text

def Block.heading (b : Block) : Heading :=
  ⟨b.progress, b.artifacts, b.resolvedReads, b.resolvedWrites⟩

namespace DoneTask

def heading (c : Conditions σ) (total tasks index : Nat) (x : DoneTask) : Heading where
  progress := ⟨x.task.task, index, tasks⟩
  artifacts := x.task.progressOf total (x.answers.artifacts c)
  resolvedReads := (x.answers.adoptedReads c).map (·.fileName)
  resolvedWrites := (x.answers.adoptedWrites c).map (·.fileName)

def headings (c : Conditions σ) (total tasks : Nat) : (index : Nat) → List DoneTask → List Heading
  | _, [] => []
  | index, x :: rest => x.heading c total tasks index :: headings c total tasks (index + 1) rest

section

variable {c : Conditions σ} {l : PipelineLocation} {known : List Text} {total tasks index : Nat}

/-- A task that is done is told of in a block. -/
theorem IsDone.block {x : DoneTask} (h : x.IsDone c l total) (known : List Text)
    (tasks index : Nat) :
    ∃ b : Block, (x.course c l known tasks index).filterMap Act.event? = b.events
      ∧ b.heading = x.heading c total tasks index := by
  obtain ⟨vs, hgathered⟩ := h.gathered
  obtain ⟨hwhole, hperm⟩ := complete_of_gathered hgathered
  have htells := tells_of_gathered hgathered
  rw [show x.answers.work = x.task from rfl] at hwhole hperm htells
  rw [hwhole] at htells
  refine ⟨⟨⟨x.task.task, index, tasks⟩, _, _, htells, hperm, ?_, _, _⟩, ?_, rfl⟩
  · intro p hp
    obtain ⟨y, -, rfl⟩ := List.mem_map.mp hp
    rfl
  · show Event.taskStart _ :: (x.acts c l known ++ [Act.told _]).filterMap Act.event? = _
    rw [acts, begun, List.filterMap_append, List.filterMap_append, List.filterMap_append,
      event_filedAll, event_asksOf]
    rfl

theorem blocks_of_courses {xs : List DoneTask} (h : ∀ x ∈ xs, x.IsDone c l total)
    (known : List Text) (tasks index : Nat) :
    ∃ blocks : List Block,
      (courses c l known tasks index xs).filterMap Act.event? = blocks.flatMap Block.events
      ∧ blocks.map Block.heading = headings c total tasks index xs := by
  induction xs generalizing index with
  | nil => exact ⟨[], rfl, rfl⟩
  | cons x rest ih =>
      obtain ⟨hx, hrest⟩ := List.forall_mem_cons.mp h
      obtain ⟨b, hb, hheading⟩ := hx.block known tasks index
      obtain ⟨blocks, hblocks, hall⟩ := ih hrest (index + 1)
      refine ⟨b :: blocks, ?_, ?_⟩
      · rw [courses, List.filterMap_append, hb, hblocks, List.flatMap_cons]
      · rw [List.map_cons, hheading, hall, headings]

theorem of_mem_headings {xs : List DoneTask} {b : Heading}
    (h : b ∈ headings c total tasks index xs) :
    ∃ x ∈ xs, ∃ i, b = x.heading c total tasks i := by
  induction xs generalizing index with
  | nil => cases h
  | cons x rest ih =>
      rcases List.mem_cons.mp h with rfl | h
      · exact ⟨x, List.mem_cons_self, index, rfl⟩
      · obtain ⟨y, hy, i, rfl⟩ := ih h
        exact ⟨y, List.mem_cons_of_mem _ hy, i, rfl⟩

end

end DoneTask

/-! ## What is put again -/

section

variable {c : Conditions σ} {schedule : Nat → Nat} {l : PipelineLocation} {known : List Text}
  {total tasks index : Nat} {x y : DoneTask} {t : FileTree} {q : List Text}

theorem DoneTask.IsDone.place_of_put (h : x.IsDone c l total) {i : Nat} {act : Act}
    (hact : act ∈ actsOf i x.history) (hput : (act.putAt t q).isSome = true) :
    ∃ a, (x.answers.artifacts c)[i]? = some a
      ∧ ∃ place, t.locate (l.configDir / "schemas") = .ok (.directory place)
        ∧ ∃ e ∈ endings, q = place ++ [keptBase a.fileName ++ e] := by
  obtain ⟨text, hput⟩ := Option.isSome_iff_exists.mp hput
  obtain ⟨op, hop, htext⟩ := Option.bind_eq_some_iff.mp hput
  rw [FileTree.textAt_eq_some] at htext
  obtain ⟨z, hz, rfl⟩ := List.mem_map.mp hact
  obtain ⟨hhistory, hi⟩ := List.mem_filter.mp hz
  obtain rfl := of_decide_eq_true hi
  obtain ⟨a, ha⟩ := h.exists_artifact hhistory
  obtain ⟨reply, -, hcourse⟩ := h.course ha
  obtain ⟨d, ops, -, hwork, hops⟩ := opsOf_deduces hcourse
  have hmem : op ∈ ops := by
    rw [← hops]
    exact List.mem_filterMap.mpr ⟨_, mem_actsOf hhistory, hop⟩
  exact ⟨a, ha, (ofSchema_of_mem hwork op hmem).place_of_put htext⟩

end

/-! ## The second run -/

def toldOf (l : PipelineLocation) (work : List TaskWork) (s : Summary) (blocks : List Block) :
    List Event :=
  .started l.slug work.length (Run.artifactCount work)
    :: (blocks.flatMap Block.events ++ [Event.complete s])

theorem event_runActs {c : Conditions σ} {l : PipelineLocation} {work : List TaskWork} {s : Summary}
    {xs : List DoneTask} {blocks : List Block}
    (h : (DoneTask.courses c l (Run.knownArtifacts work) work.length 0 xs).filterMap Act.event?
      = blocks.flatMap Block.events) :
    (runActs c l work s xs).filterMap Act.event? = toldOf l work s blocks := by
  show Event.started _ _ _ :: (DoneTask.courses _ _ _ _ _ _ ++ [Act.told _]).filterMap _ = _
  rw [List.filterMap_append, h]
  rfl

/-- A task that writes two artifacts with one base name. -/
def sharedBase : FileTree :=
  { entries := [([Text.ofString "p"], .directory),
      ([Text.ofString "p", Text.ofString "pipeline.json"],
        .file (Text.ofString "\x7b\"tasks\":[\"t\"]\x7d")),
      ([Text.ofString "p", Text.ofString "t.js"],
        .file (Text.ofString ("export const f=()=>\x7bio.writeArtifact('a/x.json',1);"
          ++ "io.writeArtifact('b/x.json',2)\x7d")))]
    current := [] }

/-- A client that marks the first of the schemas it deduces, and counts them. -/
def markingConditions : Conditions Nat :=
  { client := fun _ n => (.response (.object [("schema", .object []),
      ("example", .arr [.bool (n == 0)]), ("reasoning", .ofString "guessed")]), n + 1)
    now := ⟨2026, 1, 2, 3, 4, 5, 0⟩ }

def sharedBaseWorld : World Nat :=
  { files := sharedBase, client := 0 }

set_option maxRecDepth 100000 in
theorem sharedBase_succeeds :
    (analyzePipeline markingConditions flatLocation sharedBaseWorld).1.isOk = true
      ∧ (analyzePipeline markingConditions flatLocation sharedBaseWorld).2.client = 2
      ∧ ((StoredSchema.load (analyzePipeline markingConditions flatLocation sharedBaseWorld).2.files
          flatLocation.configDir (Text.ofString "a/x.json")).toOption.map fun x => x.sample.compact)
        = some (Text.ofString "[false]") := by
  decide +kernel

end TaskContract
