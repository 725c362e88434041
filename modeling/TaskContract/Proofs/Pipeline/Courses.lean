import TaskContract.Proofs.Pipeline.Moves

/-!
# The courses of jobs

A job that is done to its end has taken its course: it has told that it begins and asked, and then
it has done what follows from the reply. At every time a job has done a part of its course, as far as
its phase says, and of the jobs that have failed there is one that did first. So when jobs have been
gathered, each of them has taken its course or one of them has failed.
-/

namespace TaskContract

variable {σ α : Type}

/-! ## Courses -/

def Conclusion.acts : Conclusion α → List Act
  | .filing f =>
    match f.work with
    | .ok ops => filedAll ops ++ [Act.told f.closing]
    | .error _ => []
  | .failure _ | .result _ => []

theorem Conclusion.acts_filing {f : Filing α} {ops : List FileOperation} (h : f.work = .ok ops) :
    (Conclusion.filing f).acts = filedAll ops ++ [Act.told f.closing] := by
  rw [acts, h]

/-- All that a job does that gets the reply, unless it fails. -/
def Job.course (job : Job α) (reply : Chat.Reply) : List Act :=
  job.asked reply ++ (job.conclusion reply).acts

/-- A part of the course of a job. What is done last may have been done only in part. -/
def IsPart (job : Job α) (reply : Chat.Reply) (acts : List Act) : Prop :=
  acts <+: job.course reply
    ∨ ∃ front op e, acts = front ++ [Act.filed op (.error e)]
      ∧ front ++ [Act.filed op (.ok ())] <+: job.course reply

/-- How a job fails, with all that it has done by then. -/
inductive Fault (c : Conditions σ) (job : Job α) (reply : Chat.Reply) :
    List Act → Trouble → Prop where
  | refused {e : Event} {m : Text} (opening : job.opening = some e)
      (refusal : c.observer e = some m) : Fault c job reply [.told e] (job.refused m)
  | failure {t : Trouble} (conclusion : job.conclusion reply = .failure t) :
      Fault c job reply (job.asked reply) t
  | work {f : Filing α} {e : StoreError} (conclusion : job.conclusion reply = .filing f)
      (work : f.work = .error e) : Fault c job reply (job.asked reply) (f.failure e)
  | cut {f : Filing α} {front : List FileOperation} {op : FileOperation}
      {back : List FileOperation} (conclusion : job.conclusion reply = .filing f)
      (work : f.work = .ok (front ++ op :: back)) (e : FileError) :
      Fault c job reply (job.asked reply ++ filedAll front ++ [Act.filed op (.error e)])
        (f.failure (.file e))
  | closing {f : Filing α} {ops : List FileOperation} {m : Text}
      (conclusion : job.conclusion reply = .filing f) (work : f.work = .ok ops)
      (refusal : c.observer f.closing = some m) :
      Fault c job reply (job.course reply) (.observer m)

inductive Completes (c : Conditions σ) (job : Job α) (reply : Chat.Reply) : α → Prop where
  | result {a : α} (accepted : job.Accepted c) (conclusion : job.conclusion reply = .result a) :
      Completes c job reply a
  | filing {f : Filing α} {ops : List FileOperation} (accepted : job.Accepted c)
      (conclusion : job.conclusion reply = .filing f) (work : f.work = .ok ops)
      (closing : c.observer f.closing = none) : Completes c job reply f.result

section

variable {c : Conditions σ} {job : Job α} {reply : Chat.Reply}

theorem Completes.accepted {a : α} (h : Completes c job reply a) : job.Accepted c := by
  cases h with
  | result accepted _ | filing accepted _ _ _ => exact accepted

theorem Completes.eq_of_result {a b : α} (h : Completes c job reply a)
    (hconclusion : job.conclusion reply = .result b) : b = a := by
  cases h with
  | result _ conclusion =>
      rw [hconclusion] at conclusion
      exact Conclusion.result.inj conclusion
  | filing _ conclusion _ _ =>
      rw [hconclusion] at conclusion
      cases conclusion

theorem Job.course_filing {f : Filing α} {ops : List FileOperation}
    (hconclusion : job.conclusion reply = .filing f) (hwork : f.work = .ok ops) :
    job.course reply = job.asked reply ++ filedAll ops ++ [Act.told f.closing] := by
  rw [course, hconclusion, Conclusion.acts_filing hwork, List.append_assoc]

theorem isPart_asked (job : Job α) (reply : Chat.Reply) : IsPart job reply (job.asked reply) :=
  Or.inl (List.prefix_append _ _)

theorem Fault.isPart {acts : List Act} {t : Trouble} (h : Fault c job reply acts t) :
    IsPart job reply acts := by
  cases h with
  | @refused e m opening _ =>
      left
      rw [Job.course, Job.asked, Job.opened, opening, List.append_assoc]
      exact List.prefix_append _ _
  | failure _ | work _ _ => exact isPart_asked job reply
  | @cut f front op back conclusion work e =>
      right
      refine ⟨job.asked reply ++ filedAll front, op, e, rfl, ?_⟩
      rw [Job.course_filing conclusion work]
      exact ⟨filedAll back ++ [Act.told f.closing], by simp [filedAll]⟩
  | closing _ _ _ => exact Or.inl List.prefix_rfl

/-- What a job has done in a phase. -/
inductive Stands (c : Conditions σ) (job : Job α) (reply : Chat.Reply) :
    Phase α → List Act → Prop where
  | asking (accepted : job.Accepted c) : Stands c job reply (.asking job reply) (job.asked reply)
  | waiting {f : Filing α} {k : Nat} (accepted : job.Accepted c)
      (conclusion : job.conclusion reply = .filing f) :
      Stands c job reply (.waiting f k) (job.asked reply)
  | writing {f : Filing α} {k : Nat} {front left : List FileOperation} (accepted : job.Accepted c)
      (conclusion : job.conclusion reply = .filing f) (work : f.work = .ok (front ++ left)) :
      Stands c job reply (.writing f k (.ok left)) (job.asked reply ++ filedAll front)
  | failing {f : Filing α} {k : Nat} {e : StoreError} {acts : List Act}
      (conclusion : job.conclusion reply = .filing f)
      (fault : Fault c job reply acts (f.failure e)) :
      Stands c job reply (.writing f k (.error e)) acts
  | abandoned {k : Nat} {left : List FileOperation} {acts : List Act}
      (part : IsPart job reply (acts ++ filedAll left)) :
      Stands c job reply (.abandoned k left) acts
  | ended {a : α} (completes : Completes c job reply a) :
      Stands c job reply (.ended a) (job.course reply)
  | gone {acts : List Act} (part : IsPart job reply acts) : Stands c job reply .gone acts

theorem IsPart.prefix_of_filedAll {acts : List Act} {op : FileOperation}
    {left : List FileOperation} (h : IsPart job reply (acts ++ filedAll (op :: left))) :
    acts ++ filedAll (op :: left) <+: job.course reply := by
  rcases h with h | ⟨front, op', e, heq, -⟩
  · exact h
  · obtain ⟨ops, last, hops⟩ : ∃ ops last, op :: left = ops ++ [last] :=
      ⟨_, _, (List.dropLast_append_getLast (List.cons_ne_nil op left)).symm⟩
    rw [hops, filedAll_append, ← List.append_assoc] at heq
    cases List.singleton_inj.mp (List.append_inj_right' heq rfl)

theorem IsPart.of_filedAll {acts : List Act} {left : List FileOperation}
    (h : IsPart job reply (acts ++ filedAll left)) : IsPart job reply acts := by
  cases left with
  | nil => rwa [filedAll, List.map_nil, List.append_nil] at h
  | cons op left => exact Or.inl ((List.prefix_append _ _).trans h.prefix_of_filedAll)

/-- What a part of a course tells, the course tells first. -/
theorem IsPart.events {acts : List Act} (h : IsPart job reply acts) :
    acts.filterMap Act.event? <+: (job.course reply).filterMap Act.event? := by
  rcases h with h | ⟨front, op, e, rfl, h⟩
  · exact h.filterMap _
  · refine List.IsPrefix.trans ?_ (h.filterMap _)
    rw [List.filterMap_append, List.filterMap_append]
    exact List.prefix_rfl

theorem Stands.isPart {p : Phase α} {acts : List Act} (h : Stands c job reply p acts) :
    IsPart job reply acts := by
  cases h with
  | asking _ | waiting _ _ => exact isPart_asked job reply
  | @writing f _ front left _ conclusion work =>
      left
      rw [Job.course_filing conclusion work, filedAll_append, ← List.append_assoc,
        List.append_assoc]
      exact List.prefix_append _ _
  | failing _ fault => exact fault.isPart
  | abandoned part => exact part.of_filedAll
  | ended _ => exact Or.inl List.prefix_rfl
  | gone part => exact part

/-- A turn leads from stage to stage, or to the failure that it tells. -/
theorem Stands.turn {s s' : Guards} {p p' : Phase α} {done acts : List Act} {t : Option Trouble}
    (h : Stands c job reply p done) (turn : Turn c s p acts p' s' t) :
    Stands c job reply p' (done ++ acts)
      ∧ ∀ trouble, t = some trouble → Fault c job reply (done ++ acts) trouble := by
  have hnone : ∀ {acts : List Act} (trouble : Trouble), none = some trouble →
      Fault c job reply acts trouble := by
    intro acts trouble h
    cases h
  cases turn with
  | fails conclusion =>
      cases h with
      | asking accepted =>
          rw [List.append_nil]
          refine ⟨.gone (isPart_asked job reply), ?_⟩
          rintro _ ⟨⟩
          exact .failure conclusion
  | @ends _ _ a conclusion =>
      cases h with
      | asking accepted =>
          have hcourse : job.course reply = job.asked reply ++ [] := by
            rw [Job.course, conclusion]
            rfl
          rw [← hcourse]
          exact ⟨.ended (.result accepted conclusion), hnone⟩
  | waits conclusion =>
      cases h with
      | asking accepted =>
          rw [List.append_nil]
          exact ⟨.waiting accepted conclusion, hnone⟩
  | @enters f k _ =>
      cases h with
      | waiting accepted conclusion =>
          refine ⟨?_, hnone⟩
          cases hwork : f.work with
          | error e =>
              rw [List.append_nil]
              exact .failing conclusion (.work conclusion hwork)
          | ok ops =>
              have hall : f.work = .ok ([] ++ ops) := hwork
              exact .writing accepted conclusion hall
  | @works f k op left =>
      cases h with
      | @writing _ _ front _ accepted conclusion work =>
          rw [List.append_assoc]
          refine ⟨?_, hnone⟩
          have hwork : f.work = .ok ((front ++ [op]) ++ left) := by
            rw [work, List.append_assoc]
            rfl
          have hstage := Stands.writing (k := k) accepted conclusion hwork
          rwa [filedAll_append] at hstage
  | @breaks f k op left e =>
      cases h with
      | writing _ conclusion work => exact ⟨.failing conclusion (.cut conclusion work e), hnone⟩
  | @closes f k accepts =>
      cases h with
      | @writing _ _ front _ accepted conclusion work =>
          rw [List.append_nil] at work
          rw [← Job.course_filing conclusion work]
          exact ⟨.ended (.filing accepted conclusion work accepts), hnone⟩
  | @refused f k m refusal =>
      cases h with
      | @writing _ _ front _ accepted conclusion work =>
          rw [List.append_nil] at work
          rw [← Job.course_filing conclusion work]
          refine ⟨.gone (Or.inl List.prefix_rfl), ?_⟩
          rintro _ ⟨⟩
          exact .closing conclusion work refusal
  | gives e =>
      cases h with
      | failing conclusion fault =>
          rw [List.append_nil]
          refine ⟨.gone fault.isPart, ?_⟩
          rintro _ ⟨⟩
          exact fault
  | @worksOn k op left =>
      cases h with
      | abandoned part =>
          refine ⟨.abandoned ?_, hnone⟩
          rw [List.append_assoc]
          exact part
  | @breaksOff k op left e =>
      cases h with
      | abandoned part =>
          refine ⟨.abandoned (Or.inr ⟨done, op, e, List.append_nil _, ?_⟩), hnone⟩
          refine List.IsPrefix.trans ?_ part.prefix_of_filedAll
          exact ⟨filedAll left, List.append_assoc _ _ _⟩
  | vanishes =>
      cases h with
      | abandoned part =>
          exact ⟨.gone part, hnone⟩

theorem Stands.conclusion {f : Filing α} {k : Nat} {left : Except StoreError (List FileOperation)}
    {acts : List Act} (h : Stands c job reply (.writing f k left) acts) :
    job.conclusion reply = .filing f := by
  cases h with
  | writing _ conclusion _ | failing conclusion _ => exact conclusion

theorem Stands.cancelled {p : Phase α} {acts : List Act} (h : Stands c job reply p acts) :
    Stands c job reply p.cancelled acts := by
  cases h with
  | asking _ | waiting _ _ => exact .gone (isPart_asked job reply)
  | @writing f k front left _ conclusion work =>
      refine .abandoned (Or.inl ?_)
      rw [Job.course_filing conclusion work, filedAll_append, ← List.append_assoc]
      exact List.prefix_append _ _
  | failing _ fault => exact .gone fault.isPart
  | abandoned part => exact .abandoned part
  | ended completes => exact .ended completes
  | gone part => exact .gone part

end

/-- Has the job neither been cancelled nor ended by a failure? -/
def Phase.isSound : Phase α → Bool
  | .abandoned _ _ | .gone => false
  | _ => true

theorem Turn.isSound {c : Conditions σ} {s s' : Guards} {p p' : Phase α} {acts : List Act}
    (h : Turn c s p acts p' s' none) (hp : p.isSound = true) : p'.isSound = true := by
  cases h <;> first | rfl | cases hp

theorem Turn.questions {c : Conditions σ} {s s' : Guards} {p p' : Phase α} {acts : List Act}
    {t : Option Trouble} (h : Turn c s p acts p' s' t) : acts.filterMap Act.question? = [] := by
  cases h <;> rfl

/-! ## Histories -/

def actsOf (i : Nat) (history : List (Nat × Act)) : List Act :=
  (history.filter fun x => x.1 = i).map Prod.snd

theorem mem_actsOf {history : List (Nat × Act)} {x : Nat × Act} (h : x ∈ history) :
    x.2 ∈ actsOf x.1 history :=
  List.mem_map_of_mem (List.mem_filter.mpr ⟨h, decide_eq_true rfl⟩)

theorem mem_of_mem_actsOf {i : Nat} {history : List (Nat × Act)} {act : Act}
    (h : act ∈ actsOf i history) : act ∈ history.map Prod.snd := by
  obtain ⟨x, hx, rfl⟩ := List.mem_map.mp h
  exact List.mem_map_of_mem (List.mem_of_mem_filter hx)

theorem actsOf_append (i : Nat) (front back : List (Nat × Act)) :
    actsOf i (front ++ back) = actsOf i front ++ actsOf i back := by
  rw [actsOf, List.filter_append, List.map_append]
  rfl

theorem actsOf_cons_self (x : Nat × Act) (rest : List (Nat × Act)) :
    actsOf x.1 (x :: rest) = x.2 :: actsOf x.1 rest := by
  rw [actsOf, List.filter_cons_of_pos (by simp)]
  rfl

theorem actsOf_label_self (i : Nat) (acts : List Act) : actsOf i (acts.map (i, ·)) = acts := by
  have hall : (acts.map (i, ·)).filter (fun x : Nat × Act => x.1 = i) = acts.map (i, ·) := by
    refine List.filter_eq_self.mpr fun x hx => ?_
    obtain ⟨act, -, rfl⟩ := List.mem_map.mp hx
    exact decide_eq_true rfl
  rw [actsOf, hall, Gathering.map_snd_label]

theorem actsOf_eq_nil {i : Nat} {history : List (Nat × Act)} (h : ∀ x ∈ history, x.1 ≠ i) :
    actsOf i history = [] := by
  have hnone : history.filter (fun x => x.1 = i) = [] :=
    List.filter_eq_nil_iff.mpr fun x hx => by simpa using h x hx
  rw [actsOf, hnone]
  rfl

theorem actsOf_label_of_ne {i j : Nat} (h : j ≠ i) (acts : List Act) :
    actsOf i (acts.map (j, ·)) = [] := by
  refine actsOf_eq_nil fun x hx => ?_
  obtain ⟨act, -, rfl⟩ := List.mem_map.mp hx
  exact h

theorem actsOf_own (i : Nat) (history : List (Nat × Act)) (acts : List Act) :
    actsOf i (history ++ acts.map (i, ·)) = actsOf i history ++ acts := by
  rw [actsOf_append, actsOf_label_self]

theorem actsOf_other {i j : Nat} (h : j ≠ i) (history : List (Nat × Act)) (acts : List Act) :
    actsOf i (history ++ acts.map (j, ·)) = actsOf i history := by
  rw [actsOf_append, actsOf_label_of_ne h, List.append_nil]

theorem lt_of_mem_history {history : List (Nat × Act)} {m n i : Nat} (h : ∀ x ∈ history, x.1 < m)
    (hm : m ≤ n) (hi : i < n) (acts : List Act) : ∀ x ∈ history ++ acts.map (i, ·), x.1 < n := by
  intro x hx
  rcases List.mem_append.mp hx with hx | hx
  · exact Nat.lt_of_lt_of_le (h x hx) hm
  · obtain ⟨act, -, rfl⟩ := List.mem_map.mp hx
    exact hi

theorem flatMap_actsOf_singleton {x : Nat × Act} {n : Nat} (h : x.1 < n) :
    (List.range n).flatMap (actsOf · [x]) = [x.2] := by
  induction n with
  | zero => cases h
  | succ n ih =>
      rw [List.range_succ, List.flatMap_append, List.flatMap_singleton]
      rcases Nat.lt_succ_iff_lt_or_eq.mp h with hlt | heq
      · rw [ih hlt, actsOf_eq_nil (List.forall_mem_singleton.mpr (Nat.ne_of_lt hlt)),
          List.append_nil]
      · have hbefore : (List.range n).flatMap (actsOf · [x]) = [] := by
          refine List.flatMap_eq_nil_iff.mpr fun i hi => ?_
          refine actsOf_eq_nil (List.forall_mem_singleton.mpr ?_)
          rw [heq]
          exact Nat.ne_of_gt (List.mem_range.mp hi)
        rw [hbefore, ← heq]
        exact actsOf_label_self x.1 [x.2]

/-- What has been done is what each of the jobs has done, put together in some order. -/
theorem perm_actsOf {n : Nat} {history : List (Nat × Act)} (h : ∀ x ∈ history, x.1 < n) :
    (history.map Prod.snd).Perm ((List.range n).flatMap (actsOf · history)) := by
  induction history with
  | nil =>
      have hnone : (List.range n).flatMap (actsOf · []) = [] :=
        List.flatMap_eq_nil_iff.mpr fun _ _ => rfl
      rw [hnone]
      exact .nil
  | cons x rest ih =>
      rw [List.forall_mem_cons] at h
      have hsplit : (List.range n).flatMap (actsOf · (x :: rest))
          = (List.range n).flatMap fun i => actsOf i [x] ++ actsOf i rest :=
        congrArg (List.flatMap · (List.range n)) (funext fun i => actsOf_append i [x] rest)
      rw [hsplit, List.map_cons]
      refine List.Perm.trans ?_ (List.flatMap_append_perm _ _ _)
      rw [flatMap_actsOf_singleton h.1]
      exact (ih h.2).cons x.2

/-! ## Jobs side by side -/

def Event.begun? : Event → Option ArtifactProgress
  | .artifactStart p => some p
  | _ => none

def Act.begun? (act : Act) : Option ArtifactProgress :=
  act.event?.bind Event.begun?

def Job.begun? (job : Job α) : Option ArtifactProgress :=
  job.opening.bind Event.begun?

theorem Turn.begun {c : Conditions σ} {s s' : Guards} {p p' : Phase α} {acts : List Act}
    {t : Option Trouble} (h : Turn c s p acts p' s' t)
    (hclosing : ∀ f k left, p = .writing f k (.ok left) → f.closing.begun? = none) :
    acts.filterMap Act.begun? = [] := by
  cases h with
  | closes _ | refused _ =>
      have hact : ∀ {e : Event}, e.begun? = none → [Act.told e].filterMap Act.begun? = [] := by
        intro e he
        rw [List.filterMap_cons_none]
        · rfl
        · exact he
      exact hact (hclosing _ _ _ rfl)
  | _ => rfl

def questionsOf (jobs : List (Job α)) (replies : List Chat.Reply) :
    List (Chat.Request × Chat.Reply) :=
  (jobs.zip replies).map fun x => (x.1.request, x.2)

theorem questionsOf_concat {jobs : List (Job α)} {replies : List Chat.Reply} {job : Job α}
    (h : jobs[replies.length]? = some job) (reply : Chat.Reply) :
    questionsOf jobs (replies ++ [reply]) = questionsOf jobs replies ++ [(job.request, reply)] := by
  induction replies generalizing jobs with
  | nil =>
      cases jobs with
      | nil => cases h
      | cons first rest =>
          obtain rfl := Option.some.inj h
          rw [List.nil_append, questionsOf, questionsOf, List.zip_cons_cons, List.zip_nil_right,
            List.zip_nil_right]
          rfl
  | cons other replies ih =>
      cases jobs with
      | nil => cases h
      | cons first rest => exact congrArg (_ :: ·) (ih h)

theorem getElem?_of_drop {jobs queue : List (Job α)} {job : Job α} {n : Nat}
    (h : jobs.drop n = job :: queue) : jobs[n]? = some job ∧ jobs.drop (n + 1) = queue := by
  constructor
  · rw [← Nat.add_zero n, ← List.getElem?_drop, h]
    rfl
  · rw [← List.drop_drop, h]
    rfl

/-- One of the jobs has failed so. -/
def FailsBy (c : Conditions σ) (jobs : List (Job α)) (history : List (Nat × Act))
    (replies : List Chat.Reply) (t : Trouble) : Prop :=
  ∃ i job reply acts, jobs[i]? = some job ∧ replies[i]? = some reply ∧ acts <+: actsOf i history
    ∧ Fault c job reply acts t

theorem FailsBy.later {c : Conditions σ} {jobs : List (Job α)} {history : List (Nat × Act)}
    {replies : List Chat.Reply} {t : Trouble} (h : FailsBy c jobs history replies t)
    (more : List Chat.Reply) (entries : List (Nat × Act)) :
    FailsBy c jobs (history ++ entries) (replies ++ more) t := by
  obtain ⟨i, job, reply, acts, hjob, hreply, hacts, hfault⟩ := h
  refine ⟨i, job, reply, acts, hjob, ?_, ?_, hfault⟩
  · rw [List.getElem?_append_left (List.getElem?_eq_some_iff.mp hreply).1]
    exact hreply
  · rw [actsOf_append]
    exact hacts.trans (List.prefix_append _ _)

/-- What holds of a gathering at every time: every job that has begun has done what its phase says.
If there is a failure, one of the jobs has failed so; if there is none, no job is gone. -/
structure Kept (c : Conditions σ) (jobs : List (Job α)) (g : Gathering σ α)
    (history : List (Nat × Act)) (replies : List Chat.Reply) : Prop where
  count : replies.length = g.begun.length
  queue : if g.cancelled then g.queue = [] else g.queue = jobs.drop g.begun.length
  known : ∀ x ∈ history, x.1 < g.begun.length
  opened : (history.map Prod.snd).filterMap Act.begun?
    = (jobs.take g.begun.length).filterMap Job.begun?
  stands : ∀ i p, g.begun[i]? = some p → ∃ job reply, jobs[i]? = some job
    ∧ replies[i]? = some reply ∧ Stands c job reply p (actsOf i history)
  failed : ∀ t, g.failure = some t → FailsBy c jobs history replies t
  sound : g.failure = none → g.cancelled = false ∧ ∀ p ∈ g.begun, p.isSound = true
  asked : (∀ job ∈ jobs, job.Accepted c) →
    (history.map Prod.snd).filterMap Act.question? = questionsOf jobs replies

namespace Kept

variable {c : Conditions σ} {jobs : List (Job α)} {g g' : Gathering σ α}
  {history entries : List (Nat × Act)} {replies : List Chat.Reply}

theorem initial (c : Conditions σ) (jobs : List (Job α)) (w : World σ) :
    Kept c jobs { queue := jobs, world := w } [] [] where
  count := rfl
  queue := by
    rw [if_neg Bool.false_ne_true]
    rfl
  known := nofun
  opened := rfl
  stands := by
    intro i p h
    cases h
  failed := by
    intro t h
    cases h
  sound _ := ⟨rfl, fun p hp => absurd hp List.not_mem_nil⟩
  asked := by
    intro _
    rw [questionsOf, List.zip_nil_right]
    rfl

theorem queue_of_cancelled (h : Kept c jobs g history replies) (hcancelled : g.cancelled = true) :
    g.queue = [] := by
  have hqueue := h.queue
  rwa [hcancelled, if_pos rfl] at hqueue

theorem mem_queue (h : Kept c jobs g history replies) {job : Job α} (hjob : job ∈ g.queue) :
    job ∈ jobs := by
  cases hcancelled : g.cancelled with
  | true =>
      rw [h.queue_of_cancelled hcancelled] at hjob
      cases hjob
  | false =>
      have hqueue := h.queue
      rw [hcancelled, if_neg Bool.false_ne_true] at hqueue
      rw [hqueue] at hjob
      exact List.mem_of_mem_drop hjob

theorem next_job (h : Kept c jobs g history replies) {job : Job α} {queue : List (Job α)}
    (next : g.queue = job :: queue) :
    g.cancelled = false ∧ jobs[g.begun.length]? = some job
      ∧ jobs.drop (g.begun.length + 1) = queue := by
  cases hcancelled : g.cancelled with
  | true =>
      rw [h.queue_of_cancelled hcancelled] at next
      cases next
  | false =>
      have hqueue := h.queue
      rw [hcancelled, if_neg Bool.false_ne_true, next] at hqueue
      exact ⟨rfl, getElem?_of_drop hqueue.symm⟩

theorem actsOf_new (h : Kept c jobs g history replies) (acts : List Act) :
    actsOf g.begun.length (history ++ acts.map (g.begun.length, ·)) = acts := by
  rw [actsOf_own, actsOf_eq_nil fun x hx => Nat.ne_of_lt (h.known x hx), List.nil_append]

/-- A job that begins stands where it does, and the others stand where they stood. -/
theorem stands_of_begun (h : Kept c jobs g history replies) {job : Job α} {reply : Chat.Reply}
    {p : Phase α} {acts : List Act} (hjob : jobs[g.begun.length]? = some job)
    (stage : Stands c job reply p acts) {i : Nat} {p' : Phase α}
    (hp' : (g.begun ++ [p])[i]? = some p') :
    ∃ job' reply', jobs[i]? = some job' ∧ (replies ++ [reply])[i]? = some reply'
      ∧ Stands c job' reply' p' (actsOf i (history ++ acts.map (g.begun.length, ·))) := by
  rcases Nat.lt_or_ge i g.begun.length with hi | hi
  · obtain ⟨job', reply', hjob', hreply', hstage⟩ :=
      h.stands i p' ((List.getElem?_append_left hi).symm.trans hp')
    refine ⟨job', reply', hjob', ?_, ?_⟩
    · rw [List.getElem?_append_left (h.count ▸ hi)]
      exact hreply'
    · rw [actsOf_other (Nat.ne_of_gt hi)]
      exact hstage
  · obtain rfl : i = g.begun.length := by
      have hlt : i < (g.begun ++ [p]).length := (List.getElem?_eq_some_iff.mp hp').1
      rw [List.length_append] at hlt
      exact Nat.le_antisymm (Nat.le_of_lt_succ hlt) hi
    obtain rfl : p = p' := Option.some.inj (List.getElem?_concat_length.symm.trans hp')
    refine ⟨job, reply, hjob, ?_, ?_⟩
    · rw [← h.count]
      exact List.getElem?_concat_length
    · rw [h.actsOf_new]
      exact stage

theorem begins (h : Kept c jobs g history replies) {job : Job α} {queue : List (Job α)}
    (next : g.queue = job :: queue) {reply : Chat.Reply} {p : Phase α} {acts : List Act}
    {t : Option Trouble} (stage : Stands c job reply p acts)
    (fault : ∀ trouble, t = some trouble → Fault c job reply acts trouble)
    (begun : acts.filterMap Act.begun? = job.begun?.toList)
    (sound : t = none → p.isSound = true)
    (asks : job.Accepted c → acts.filterMap Act.question? = [(job.request, reply)])
    (world : World σ) :
    Kept c jobs (g.begins queue p t world) (history ++ acts.map (g.begun.length, ·))
      (replies ++ [reply]) := by
  obtain ⟨hrunning, hjob, hrest⟩ := h.next_job next
  have hlength : (g.begun ++ [p]).length = g.begun.length + 1 := List.length_append
  have hone : [job].filterMap Job.begun? = job.begun?.toList := by
    rw [List.filterMap_cons]
    cases job.begun? <;> rfl
  exact
    { count := by
        rw [List.length_append, h.count]
        exact hlength.symm
      queue := by
        show if g.cancelled then queue = [] else queue = jobs.drop (g.begun ++ [p]).length
        rw [hrunning, if_neg Bool.false_ne_true, hlength]
        exact hrest.symm
      known := by
        show ∀ x ∈ history ++ acts.map (g.begun.length, ·), x.1 < (g.begun ++ [p]).length
        rw [hlength]
        exact lt_of_mem_history h.known (Nat.le_succ _) (Nat.lt_succ_self _) acts
      opened := by
        show _ = (jobs.take (g.begun ++ [p]).length).filterMap Job.begun?
        rw [hlength, List.take_add_one, hjob, List.map_append, List.filterMap_append,
          List.filterMap_append, Gathering.map_snd_label, h.opened, begun]
        exact congrArg _ hone.symm
      stands := fun i p' hp' => h.stands_of_begun hjob stage hp'
      failed := by
        intro trouble htrouble
        rcases Option.or_eq_some_iff.mp htrouble with hold | ⟨-, hnew⟩
        · exact (h.failed _ hold).later _ _
        · refine ⟨g.begun.length, job, reply, acts, hjob, ?_, ⟨[], ?_⟩, fault _ hnew⟩
          · rw [← h.count]
            exact List.getElem?_concat_length
          · rw [h.actsOf_new, List.append_nil]
      sound := by
        intro hnone
        obtain ⟨hold, ht⟩ := Option.or_eq_none_iff.mp hnone
        refine ⟨hrunning, fun p' hp' => ?_⟩
        rcases List.mem_append.mp hp' with hp' | hp'
        · exact (h.sound hold).2 p' hp'
        · rw [List.mem_singleton.mp hp']
          exact sound ht
      asked := by
        intro haccepted
        rw [List.map_append, List.filterMap_append, Gathering.map_snd_label,
          h.asked haccepted, asks (haccepted job (List.mem_of_getElem? hjob)),
          questionsOf_concat (by rw [h.count]; exact hjob)] }

theorem turns (h : Kept c jobs g history replies)
    (hclosing : ∀ job ∈ jobs, ∀ reply f, job.conclusion reply = .filing f → f.closing.begun? = none)
    {i : Nat} {p p' : Phase α} {acts : List Act} {s : Guards} {t : Option Trouble}
    (found : g.begun[i]? = some p) (turn : Turn c g.guards p acts p' s t) (world : World σ) :
    Kept c jobs (g.after i p' s t world) (history ++ acts.map (i, ·)) replies := by
  have hi : i < g.begun.length := (List.getElem?_eq_some_iff.mp found).1
  have hlength : (g.begun.set i p').length = g.begun.length := List.length_set
  obtain ⟨job, reply, hjob, hreply, hstage⟩ := h.stands i p found
  obtain ⟨hstage', hfault⟩ := hstage.turn turn
  have hbegun : acts.filterMap Act.begun? = [] := by
    refine turn.begun ?_
    rintro f k left rfl
    exact hclosing job (List.mem_of_getElem? hjob) reply f hstage.conclusion
  exact
    { count := h.count.trans hlength.symm
      queue := by
        show if g.cancelled then g.queue = [] else g.queue = jobs.drop (g.begun.set i p').length
        rw [hlength]
        exact h.queue
      known := by
        show ∀ x ∈ history ++ acts.map (i, ·), x.1 < (g.begun.set i p').length
        rw [hlength]
        exact lt_of_mem_history h.known (Nat.le_refl _) hi acts
      opened := by
        show _ = (jobs.take (g.begun.set i p').length).filterMap Job.begun?
        rw [hlength, List.map_append, List.filterMap_append, Gathering.map_snd_label, h.opened,
          hbegun, List.append_nil]
      stands := by
        intro j q hq
        by_cases hij : i = j
        · subst hij
          obtain rfl : p' = q := Option.some.inj ((List.getElem?_set_self hi).symm.trans hq)
          rw [actsOf_own]
          exact ⟨job, reply, hjob, hreply, hstage'⟩
        · rw [actsOf_other hij]
          exact h.stands j q ((List.getElem?_set_ne hij).symm.trans hq)
      failed := by
        intro trouble htrouble
        rcases Option.or_eq_some_iff.mp htrouble with hold | ⟨-, hnew⟩
        · have hlater := (h.failed _ hold).later [] (acts.map (i, ·))
          rwa [List.append_nil] at hlater
        · refine ⟨i, job, reply, actsOf i history ++ acts, hjob, hreply, ⟨[], ?_⟩, hfault _ hnew⟩
          rw [actsOf_own, List.append_nil]
      sound := by
        intro hnone
        obtain ⟨hold, ht⟩ := Option.or_eq_none_iff.mp hnone
        obtain ⟨hrunning, hsound⟩ := h.sound hold
        rw [ht] at turn
        refine ⟨hrunning, fun q hq => ?_⟩
        rcases List.mem_or_eq_of_mem_set hq with hq | rfl
        · exact hsound q hq
        · exact turn.isSound (hsound p (List.mem_of_getElem? found))
      asked := by
        intro haccepted
        rw [List.map_append, List.filterMap_append, Gathering.map_snd_label, h.asked haccepted,
          turn.questions, List.append_nil] }

theorem cancels (h : Kept c jobs g history replies) {t : Trouble} (failed : g.failure = some t)
    (world : World σ) : Kept c jobs { g.cancel with world } history replies := by
  have hlength : (g.begun.map Phase.cancelled).length = g.begun.length := List.length_map _
  exact
    { count := h.count.trans hlength.symm
      queue := by
        show if true then _ else _
        rw [if_pos rfl]
        rfl
      known := by
        intro x hx
        exact hlength.symm ▸ h.known x hx
      opened := by
        show _ = (jobs.take (g.begun.map Phase.cancelled).length).filterMap Job.begun?
        rw [hlength]
        exact h.opened
      stands := by
        intro i q hq
        have hq' : (g.begun.map Phase.cancelled)[i]? = some q := hq
        rw [List.getElem?_map, Option.map_eq_some_iff] at hq'
        obtain ⟨p, hp, rfl⟩ := hq'
        obtain ⟨job, reply, hjob, hreply, hstage⟩ := h.stands i p hp
        exact ⟨job, reply, hjob, hreply, hstage.cancelled⟩
      failed := h.failed
      sound := by
        intro hnone
        have hnone' : g.failure = none := hnone
        rw [failed] at hnone'
        cases hnone'
      asked := h.asked }

theorem goes (h : Kept c jobs g history replies)
    (hclosing : ∀ job ∈ jobs, ∀ reply f, job.conclusion reply = .filing f → f.closing.begun? = none)
    (hgoes : Gathering.Goes c g entries g') :
    ∃ more, Kept c jobs g' (history ++ entries) (replies ++ more) := by
  cases hgoes with
  | @asks job queue reply world next accepted _ _ _ =>
      refine ⟨[reply], h.begins next (.asking accepted) ?_ ?_ (fun _ => rfl) (fun _ => ?_) world⟩
      · rintro _ ⟨⟩
      · rw [Job.asked, Job.opened, List.filterMap_append, Job.begun?]
        cases job.opening with
        | none => rfl
        | some e => cases e <;> rfl
      · rw [Job.asked, Job.opened]
        cases job.opening <;> rfl
  | @refused job queue e m world next opening refusal _ =>
      have hfault : Fault c job .nothing [.told e] (job.refused m) := .refused opening refusal
      have hstage : Stands c job .nothing .gone [.told e] := .gone hfault.isPart
      refine ⟨[.nothing], h.begins next hstage ?_ ?_ ?_ ?_ world⟩
      · rintro _ ⟨⟩
        exact hfault
      · rw [Job.begun?, opening]
        cases e <;> rfl
      · rintro ⟨⟩
      · intro haccepted
        rw [haccepted e opening] at refusal
        cases refusal
  | turns found turn _ _ _ =>
      refine ⟨[], ?_⟩
      rw [List.append_nil]
      exact h.turns hclosing found turn _
  | cancels failed _ _ =>
      refine ⟨[], ?_⟩
      rw [List.append_nil, List.append_nil]
      exact h.cancels failed _

end Kept

/-- However a gathering has got where it is, what is always kept is kept. -/
theorem Gathering.Reaches.kept {c : Conditions σ} {jobs : List (Job α)} {w : World σ}
    {g : Gathering σ α} {history : List (Nat × Act)}
    (hclosing : ∀ job ∈ jobs, ∀ reply f, job.conclusion reply = .filing f → f.closing.begun? = none)
    (h : Reaches c { queue := jobs, world := w } history g) :
    ∃ replies, Kept c jobs g history replies := by
  induction h with
  | refl => exact ⟨[], .initial c jobs w⟩
  | move _ goes ih =>
      obtain ⟨replies, hkept⟩ := ih
      obtain ⟨more, hkept'⟩ := hkept.goes hclosing goes
      exact ⟨replies ++ more, hkept'⟩

end TaskContract
