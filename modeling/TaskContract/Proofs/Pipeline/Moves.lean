import Mathlib.Algebra.GroupWithZero.Nat
import Mathlib.Algebra.Order.BigOperators.Group.List
import Mathlib.Algebra.Order.Group.Nat
import TaskContract.Proofs.Pipeline.Acts

/-!
# The moves of a gathering

What a move can do is said once: a job of the queue begins or is refused, a job that has begun takes
a turn of its own, or the jobs are cancelled. `Turn` is the turn of one job, which depends on
nothing of the others but the locks; `Goes` is the move of the gathering. Every move brings a
gathering nearer to its end, and as long as something is open there is one, so a gathering is run
to its end.
-/

namespace TaskContract

variable {σ α : Type}

namespace Job

def opened (job : Job α) : List Act :=
  (job.opening.map Act.told).toList

def asked (job : Job α) (reply : Chat.Reply) : List Act :=
  job.opened ++ [Act.asked job.request reply]

def Accepted (c : Conditions σ) (job : Job α) : Prop :=
  ∀ e, job.opening = some e → c.observer e = none

def conclusion (job : Job α) (reply : Chat.Reply) : Conclusion α :=
  (job.conclude reply []).1

/-- What follows from a reply does not depend on what has been registered. -/
def IsSteady (job : Job α) : Prop :=
  ∀ reply registry, (job.conclude reply registry).1 = job.conclusion reply

end Job

structure Guards where
  locks : ArtifactLocks
  held : Nat → Bool

def Guards.set (s : Guards) (lock : Nat) (held : Bool) : Guards :=
  { s with held := fun k => if k = lock then held else s.held k }

theorem Guards.held_set_self (s : Guards) (k : Nat) (held : Bool) : (s.set k held).held k = held :=
  if_pos rfl

theorem Guards.held_set_of_ne (s : Guards) {j k : Nat} (h : k ≠ j) (held : Bool) :
    (s.set j held).held k = s.held k :=
  if_neg h

/-- A turn of a job: what it does, what becomes of it and of the locks, and how it fails. -/
inductive Turn (c : Conditions σ) (s : Guards) :
    Phase α → List Act → Phase α → Guards → Option Trouble → Prop where
  | fails {job : Job α} {reply : Chat.Reply} {t : Trouble}
      (conclusion : job.conclusion reply = .failure t) :
      Turn c s (.asking job reply) [] .gone s (some t)
  | ends {job : Job α} {reply : Chat.Reply} {a : α} (conclusion : job.conclusion reply = .result a) :
      Turn c s (.asking job reply) [] (.ended a) s none
  | waits {job : Job α} {reply : Chat.Reply} {f : Filing α}
      (conclusion : job.conclusion reply = .filing f) :
      Turn c s (.asking job reply) [] (.waiting f (s.locks.lockFor f.artifact).1)
        { s with locks := (s.locks.lockFor f.artifact).2 } none
  | enters {f : Filing α} {k : Nat} (free : s.held k = false) :
      Turn c s (.waiting f k) [] (.writing f k f.work) (s.set k true) none
  | works {f : Filing α} {k : Nat} {op : FileOperation} {left : List FileOperation} :
      Turn c s (.writing f k (.ok (op :: left))) [.filed op (.ok ())] (.writing f k (.ok left)) s
        none
  | breaks {f : Filing α} {k : Nat} {op : FileOperation} {left : List FileOperation}
      (e : FileError) :
      Turn c s (.writing f k (.ok (op :: left))) [.filed op (.error e)]
        (.writing f k (.error (.file e))) s none
  | closes {f : Filing α} {k : Nat} (accepted : c.observer f.closing = none) :
      Turn c s (.writing f k (.ok [])) [.told f.closing] (.ended f.result) (s.set k false) none
  | refused {f : Filing α} {k : Nat} {m : Text} (refusal : c.observer f.closing = some m) :
      Turn c s (.writing f k (.ok [])) [.told f.closing] .gone (s.set k false)
        (some (.observer m))
  | gives {f : Filing α} {k : Nat} (e : StoreError) :
      Turn c s (.writing f k (.error e)) [] .gone (s.set k false) (some (f.failure e))
  | worksOn {k : Nat} {op : FileOperation} {left : List FileOperation} :
      Turn c s (.abandoned k (op :: left)) [.filed op (.ok ())] (.abandoned k left) s none
  | breaksOff {k : Nat} {op : FileOperation} {left : List FileOperation} (e : FileError) :
      Turn c s (.abandoned k (op :: left)) [.filed op (.error e)] (.abandoned k []) s none
  | vanishes {k : Nat} : Turn c s (.abandoned k []) [] .gone s none

namespace Gathering

def guards (g : Gathering σ α) : Guards :=
  ⟨g.locks, g.held⟩

def begins (g : Gathering σ α) (queue : List (Job α)) (p : Phase α) (t : Option Trouble)
    (world : World σ) : Gathering σ α :=
  { g with queue, begun := g.begun ++ [p], failure := g.failure.or t, world }

def after (g : Gathering σ α) (i : Nat) (p : Phase α) (s : Guards) (t : Option Trouble)
    (world : World σ) : Gathering σ α :=
  { g with begun := g.begun.set i p, locks := s.locks, held := s.held, failure := g.failure.or t
           world }

/-- Is the registry of schemas left alone when a job moves on from this phase? -/
def LeavesRegistry : Phase α → Prop
  | .asking job _ => ∀ reply registry, (job.conclude reply registry).2 = registry
  | _ => True

theorem map_snd_label (i : Nat) (acts : List Act) :
    (acts.map fun act => (i, act)).map Prod.snd = acts := by
  rw [List.map_map]
  exact List.map_id acts

/-- A move of the gathering, with what is done by which job. -/
inductive Goes (c : Conditions σ) (g : Gathering σ α) :
    List (Nat × Act) → Gathering σ α → Prop where
  | asks {job : Job α} {queue : List (Job α)} {reply : Chat.Reply} {world : World σ}
      (next : g.queue = job :: queue) (accepted : job.Accepted c)
      (passes : Passes c g.world (job.asked reply) world) (tick : world.tick = g.world.tick + 1)
      (registry : world.registry = g.world.registry) :
      Goes c g ((job.asked reply).map (g.begun.length, ·))
        (g.begins queue (.asking job reply) none world)
  | refused {job : Job α} {queue : List (Job α)} {e : Event} {m : Text} {world : World σ}
      (next : g.queue = job :: queue) (opening : job.opening = some e)
      (refusal : c.observer e = some m) (passes : Passes c g.world [.told e] world) :
      Goes c g [(g.begun.length, .told e)]
        (g.begins queue .gone (some (job.refused m)) world)
  | turns {i : Nat} {p p' : Phase α} {acts : List Act} {s : Guards} {t : Option Trouble}
      {world : World σ} (found : g.begun[i]? = some p) (turn : Turn c g.guards p acts p' s t)
      (passes : Passes c g.world acts world) (tick : world.tick = g.world.tick + 1)
      (registry : LeavesRegistry p → world.registry = g.world.registry) :
      Goes c g (acts.map (i, ·)) (g.after i p' s t world)
  | cancels {t : Trouble} {world : World σ} (failed : g.failure = some t)
      (running : g.cancelled = false) (passes : Passes c g.world [] world) :
      Goes c g [] { g.cancel with world }

theorem Goes.passes {c : Conditions σ} {g g' : Gathering σ α} {entries : List (Nat × Act)}
    (h : Goes c g entries g') : Passes c g.world (entries.map Prod.snd) g'.world := by
  cases h with
  | asks _ _ passes _ _ =>
      rw [map_snd_label]
      exact passes
  | refused _ _ _ passes => exact passes
  | turns _ _ passes _ _ =>
      rw [map_snd_label]
      exact passes
  | cancels _ _ passes => exact passes

/-! ## Moves that are possible -/

theorem mem_moves {c : Conditions σ} {g : Gathering σ α} {m : Move} : m ∈ g.moves c ↔
    (∃ i p, g.begun[i]? = some p ∧ g.moveOf i p = some m) ∨ (m = .begin ∧ g.canBegin c = true)
      ∨ (m = .cancel ∧ g.canCancel = true) := by
  rw [moves, List.mem_append, List.mem_append, or_assoc]
  refine or_congr ?_ (or_congr ?_ ?_)
  · rw [List.mem_filterMap]
    constructor
    · rintro ⟨⟨p, i⟩, hmem, hmove⟩
      exact ⟨i, p, List.mem_zipIdx_iff_getElem?.mp hmem, hmove⟩
    · rintro ⟨i, p, hfound, hmove⟩
      exact ⟨(p, i), List.mem_zipIdx_iff_getElem?.mpr hfound, hmove⟩
  · rw [List.mem_ite_nil_right, List.mem_singleton, and_comm]
  · rw [List.mem_ite_nil_right, List.mem_singleton, and_comm]

def inWorld (g : Gathering σ α) (v : World σ) : Gathering σ α :=
  { g with world := { v with tick := v.tick + 1 } }

section

variable {c : Conditions σ} {g : Gathering σ α} {i : Nat}

theorem step_receive {job : Job α} {reply : Chat.Reply}
    (h : g.begun[i]? = some (.asking job reply)) :
    g.step c (.receive i) = g.receive i job reply := by
  rw [step, h]

theorem step_enter {f : Filing α} {k : Nat} (h : g.begun[i]? = some (.waiting f k)) :
    g.step c (.enter i) = (g.setHeld k true).setPhase i (.writing f k f.work) := by
  rw [step, h]

theorem step_work {p : Phase α} (h : g.begun[i]? = some p) :
    g.step c (.work i) = g.work c i p := by
  rw [step, h]
  rfl

theorem step_leave {p : Phase α} (h : g.begun[i]? = some p) :
    g.step c (.leave i) = g.leave c i p := by
  rw [step, h]
  rfl

theorem receive_eq (g : Gathering σ α) (i : Nat) (job : Job α) (reply : Chat.Reply) :
    g.receive i job reply
      = let world := { g.world with registry := (job.conclude reply g.world.registry).2 }
        match (job.conclude reply g.world.registry).1 with
        | .failure t => g.after i .gone g.guards (some t) world
        | .result a => g.after i (.ended a) g.guards none world
        | .filing f => g.after i (.waiting f (g.locks.lockFor f.artifact).1)
            { g.guards with locks := (g.locks.lockFor f.artifact).2 } none world := by
  rw [receive]
  cases job.conclude reply g.world.registry with
  | mk conclusion registry =>
      cases conclusion with
      | failure t => rfl
      | result a => simp only [after, Option.or_none]; rfl
      | filing f => simp only [after, Option.or_none]; rfl

theorem work_writing (g : Gathering σ α) (i : Nat) (f : Filing α) (k : Nat) (op : FileOperation)
    (left : List FileOperation) :
    g.work c i (.writing f k (.ok (op :: left)))
      = g.after i (.writing f k (match (g.world.perform c op).1 with
          | .ok () => .ok left
          | .error e => .error (.file e))) g.guards none (g.world.perform c op).2 := by
  rw [work, after, Option.or_none]
  rfl

theorem work_abandoned (g : Gathering σ α) (i k : Nat) (op : FileOperation)
    (left : List FileOperation) :
    g.work c i (.abandoned k (op :: left))
      = g.after i (.abandoned k (if (g.world.perform c op).1.isOk then left else [])) g.guards none
          (g.world.perform c op).2 := by
  rw [work, after, Option.or_none]
  rfl

theorem leave_closed {f : Filing α} {k : Nat} (h : c.observer f.closing = none) :
    g.leave c i (.writing f k (.ok []))
      = g.after i (.ended f.result) (g.guards.set k false) none (g.world.tell f.closing) := by
  rw [leave, after, Option.or_none]
  dsimp only
  rw [h]
  rfl

theorem leave_refused {f : Filing α} {k : Nat} {m : Text} (h : c.observer f.closing = some m) :
    g.leave c i (.writing f k (.ok []))
      = g.after i .gone (g.guards.set k false) (some (.observer m)) (g.world.tell f.closing) := by
  rw [leave]
  dsimp only
  rw [h]
  rfl

/-- A move is a turn of a job, and the same turn in every world in which the job can do the same. -/
def IsTurn (c : Conditions σ) (g : Gathering σ α) (i : Nat) (p : Phase α) (m : Move) : Prop :=
  ∃ acts p' s t, Turn c g.guards p acts p' s t
    ∧ (∃ stop, Performs c (g.world.files, g.world.client) acts stop)
    ∧ ∀ v stop, Performs c (v.files, v.client) acts stop → ∃ v', Passes c v acts v'
      ∧ v'.tick = v.tick + 1 ∧ (LeavesRegistry p → v'.registry = v.registry)
      ∧ (g.inWorld v).step c m = g.after i p' s t v'

theorem isTurn_receive {job : Job α} {reply : Chat.Reply} (hsteady : job.IsSteady)
    (hfound : g.begun[i]? = some (.asking job reply)) :
    IsTurn c g i (.asking job reply) (.receive i) := by
  have hpasses : ∀ v, Passes c v []
      { (g.inWorld v).world with registry := (job.conclude reply v.registry).2 } := fun v =>
    (Passes.refl c v).recount _ _
  have hreceive : ∀ v, (g.inWorld v).step c (.receive i) = _ := fun v =>
    (step_receive (g := g.inWorld v) hfound).trans (receive_eq _ i job reply)
  have hconclude : ∀ v, (job.conclude reply (g.inWorld v).world.registry).1
      = job.conclusion reply := fun v => hsteady reply v.registry
  cases hconclusion : job.conclusion reply with
  | failure t =>
      refine ⟨[], _, _, _, .fails hconclusion, ⟨_, .nil _⟩, fun v _ _ =>
        ⟨_, hpasses v, rfl, fun h => h reply _, ?_⟩⟩
      rw [hreceive, hconclude, hconclusion]
      rfl
  | result a =>
      refine ⟨[], _, _, _, .ends hconclusion, ⟨_, .nil _⟩, fun v _ _ =>
        ⟨_, hpasses v, rfl, fun h => h reply _, ?_⟩⟩
      rw [hreceive, hconclude, hconclusion]
      rfl
  | filing f =>
      refine ⟨[], _, _, _, .waits hconclusion, ⟨_, .nil _⟩, fun v _ _ =>
        ⟨_, hpasses v, rfl, fun h => h reply _, ?_⟩⟩
      rw [hreceive, hconclude, hconclusion]
      rfl

theorem isTurn_enter {f : Filing α} {k : Nat} (hfree : g.held k = false)
    (hfound : g.begun[i]? = some (.waiting f k)) : IsTurn c g i (.waiting f k) (.enter i) := by
  refine ⟨[], _, _, _, .enters hfree, ⟨_, .nil _⟩, fun v _ _ =>
    ⟨(g.inWorld v).world, (Passes.refl c v).recount _ _, rfl, fun _ => rfl, ?_⟩⟩
  rw [step_enter (g := g.inWorld v) hfound, after, Option.or_none]
  rfl

/-- The next thing that a writer does is done by the world, and what follows depends on how that
ends alone. -/
theorem isTurn_filed {p : Phase α} (op : FileOperation) (next : Except FileError Unit → Phase α)
    (hwork : ∀ v, (g.inWorld v).step c (.work i) = g.after i (next (v.perform c op).1) g.guards none
      ((g.inWorld v).world.perform c op).2)
    (hturn : ∀ result, Turn c g.guards p [.filed op result] (next result) g.guards none) :
    IsTurn c g i p (.work i) := by
  refine ⟨_, _, _, _, hturn (g.world.perform c op).1, ⟨_, .filed rfl (.nil _)⟩, fun v _ h => ?_⟩
  cases h with
  | filed ending _ =>
      have hv : (v.perform c op).1 = (g.world.perform c op).1 := ending
      rw [← hv]
      exact ⟨_, (Passes.perform c v op).recount v.registry (v.tick + 1), rfl, fun _ => rfl, hwork v⟩

theorem isTurn_work {f : Filing α} {k : Nat} {op : FileOperation} {left : List FileOperation}
    (hfound : g.begun[i]? = some (.writing f k (.ok (op :: left)))) :
    IsTurn c g i (.writing f k (.ok (op :: left))) (.work i) := by
  refine isTurn_filed op (fun result => .writing f k (match result with
    | .ok () => .ok left
    | .error e => .error (.file e))) (fun v => ?_) fun result => ?_
  · exact (step_work (g := g.inWorld v) hfound).trans (work_writing _ i f k op left)
  · cases result with
    | ok _ => exact .works
    | error e => exact .breaks e

theorem isTurn_workOn {k : Nat} {op : FileOperation} {left : List FileOperation}
    (hfound : g.begun[i]? = some (.abandoned k (op :: left))) :
    IsTurn c g i (.abandoned k (op :: left)) (.work i) := by
  refine isTurn_filed op (fun result => .abandoned k (if result.isOk then left else []))
    (fun v => ?_) fun result => ?_
  · exact (step_work (g := g.inWorld v) hfound).trans (work_abandoned _ i k op left)
  · cases result with
    | ok _ => exact .worksOn
    | error e => exact .breaksOff e

theorem isTurn_leave {f : Filing α} {k : Nat} (hfound : g.begun[i]? = some (.writing f k (.ok []))) :
    IsTurn c g i (.writing f k (.ok [])) (.leave i) := by
  have hleave : ∀ v, (g.inWorld v).step c (.leave i)
      = (g.inWorld v).leave c i _ := fun v =>
    step_leave (g := g.inWorld v) hfound
  have hpasses : ∀ v, Passes c v [.told f.closing] ((g.inWorld v).world.tell f.closing) := fun v =>
    (Passes.tell c v f.closing).recount v.registry (v.tick + 1)
  cases hclosing : c.observer f.closing with
  | none =>
      refine ⟨_, _, _, _, .closes hclosing, ⟨_, .told _ (.nil _)⟩, fun v _ _ =>
        ⟨_, hpasses v, rfl, fun _ => rfl, ?_⟩⟩
      rw [hleave, leave_closed hclosing]
      rfl
  | some m =>
      refine ⟨_, _, _, _, .refused hclosing, ⟨_, .told _ (.nil _)⟩, fun v _ _ =>
        ⟨_, hpasses v, rfl, fun _ => rfl, ?_⟩⟩
      rw [hleave, leave_refused hclosing]
      rfl

theorem isTurn_giveUp {f : Filing α} {k : Nat} {e : StoreError}
    (hfound : g.begun[i]? = some (.writing f k (.error e))) :
    IsTurn c g i (.writing f k (.error e)) (.leave i) := by
  refine ⟨_, _, _, _, .gives e, ⟨_, .nil _⟩, fun v _ _ =>
    ⟨(g.inWorld v).world, (Passes.refl c v).recount _ _, rfl, fun _ => rfl, ?_⟩⟩
  rw [step_leave (g := g.inWorld v) hfound]
  rfl

theorem isTurn_vanish {k : Nat} (hfound : g.begun[i]? = some (.abandoned k [])) :
    IsTurn c g i (.abandoned k []) (.leave i) := by
  refine ⟨_, _, _, _, .vanishes, ⟨_, .nil _⟩, fun v _ _ =>
    ⟨(g.inWorld v).world, (Passes.refl c v).recount _ _, rfl, fun _ => rfl, ?_⟩⟩
  rw [step_leave (g := g.inWorld v) hfound, after, Option.or_none]
  rfl

theorem isTurn_of_move {p : Phase α} {m : Move} (hfound : g.begun[i]? = some p)
    (hmove : g.moveOf i p = some m) (hsteady : ∀ job reply, p = .asking job reply → job.IsSteady) :
    IsTurn c g i p m := by
  cases p with
  | asking job reply =>
      obtain rfl := Option.some.inj hmove
      exact isTurn_receive (hsteady job reply rfl) hfound
  | waiting f k =>
      rw [moveOf] at hmove
      split at hmove
      · cases hmove
      · rename_i hfree
        obtain rfl := Option.some.inj hmove
        exact isTurn_enter (Bool.eq_false_iff.mpr hfree) hfound
  | writing f k left =>
      rcases left with e | _ | ⟨op, left⟩
      · obtain rfl := Option.some.inj hmove
        exact isTurn_giveUp hfound
      · obtain rfl := Option.some.inj hmove
        exact isTurn_leave hfound
      · obtain rfl := Option.some.inj hmove
        exact isTurn_work hfound
  | abandoned k left =>
      rcases left with _ | ⟨op, left⟩
      · obtain rfl := Option.some.inj hmove
        exact isTurn_vanish hfound
      · obtain rfl := Option.some.inj hmove
        exact isTurn_workOn hfound
  | ended a => cases hmove
  | gone => cases hmove

/-- A move goes as described, and in the same way in every world with the same client in which the
same can be done. -/
def IsMove (c : Conditions σ) (g : Gathering σ α) (m : Move) : Prop :=
  ∃ entries, Goes c g entries ((g.inWorld g.world).step c m)
    ∧ ∀ v stop, v.client = g.world.client → v.tick = g.world.tick →
      Performs c (v.files, v.client) (entries.map Prod.snd) stop →
      ∃ v', Passes c v (entries.map Prod.snd) v'
        ∧ v'.tick = ((g.inWorld g.world).step c m).world.tick
        ∧ (g.inWorld v).step c m = { (g.inWorld g.world).step c m with world := v' }

theorem IsTurn.isMove {p : Phase α} {m : Move} (hfound : g.begun[i]? = some p)
    (h : IsTurn c g i p m) : IsMove c g m := by
  obtain ⟨acts, p', s, t, hturn, ⟨_, hdone⟩, hagain⟩ := h
  obtain ⟨w', hpasses, htick, hregistry, hstep⟩ := hagain g.world _ hdone
  refine ⟨acts.map (i, ·), ?_, ?_⟩
  · rw [hstep]
    exact .turns hfound hturn hpasses htick hregistry
  · intro v stop _ hv hperforms
    rw [map_snd_label] at hperforms ⊢
    obtain ⟨v', hpasses', htick', -, hstep'⟩ := hagain v stop hperforms
    refine ⟨v', hpasses', ?_, ?_⟩
    · rw [hstep, htick', hv]
      exact htick.symm
    · rw [hstep', hstep]
      rfl

def worldOf (w : World σ) (job : Job α) : World σ :=
  match job.opening with
  | none => w
  | some e => w.tell e

theorem passes_worldOf (c : Conditions σ) (w : World σ) (job : Job α) :
    Passes c w job.opened (worldOf w job) := by
  rw [Job.opened, worldOf]
  cases job.opening with
  | none => exact .refl c w
  | some e => exact .tell c w e

theorem worldOf_same (w : World σ) (job : Job α) : (worldOf w job).client = w.client
    ∧ (worldOf w job).tick = w.tick ∧ (worldOf w job).registry = w.registry := by
  rw [worldOf]
  cases job.opening <;> exact ⟨rfl, rfl, rfl⟩

theorem passes_begin (c : Conditions σ) (w : World σ) (job : Job α) :
    Passes c w (job.asked (c.client job.request w.client).1)
      ((worldOf w job).ask c job.request).2 := by
  have hask := Passes.ask c (worldOf w job) job.request
  have hreply : ((worldOf w job).ask c job.request).1 = (c.client job.request w.client).1 := by
    rw [← (worldOf_same w job).1]
    rfl
  rw [hreply] at hask
  exact (passes_worldOf c w job).trans hask

theorem begin_accepted {job : Job α} {queue : List (Job α)} (hqueue : g.queue = job :: queue)
    (h : job.Accepted c) : g.begin c
      = g.begins queue (.asking job (c.client job.request g.world.client).1) none
          ((worldOf g.world job).ask c job.request).2 := by
  rw [begin, hqueue, worldOf, begins, Option.or_none]
  dsimp only
  cases hopening : job.opening with
  | none => rfl
  | some e =>
      dsimp only
      rw [h e hopening]
      rfl

theorem begin_refused {job : Job α} {queue : List (Job α)} {e : Event} {m : Text}
    (hqueue : g.queue = job :: queue) (hopening : job.opening = some e)
    (h : c.observer e = some m) : g.begin c
      = g.begins queue .gone (some (job.refused m)) (g.world.tell e) := by
  rw [begin, hqueue]
  dsimp only
  rw [hopening]
  dsimp only
  rw [h]
  rfl

theorem isMove_asks {job : Job α} {queue : List (Job α)} (hqueue : g.queue = job :: queue)
    (haccepted : job.Accepted c) : IsMove c g .begin := by
  -- the world of the gathering when the job has begun in the world `v`
  let next (v : World σ) : World σ := ((worldOf (g.inWorld v).world job).ask c job.request).2
  have hbegin : ∀ v, (g.inWorld v).step c .begin
      = g.begins queue (.asking job (c.client job.request v.client).1) none (next v) := fun v =>
    begin_accepted (g := g.inWorld v) hqueue haccepted
  have hpasses : ∀ v, Passes c v (job.asked (c.client job.request v.client).1) (next v) := by
    intro v
    obtain ⟨hevents, hdeeds, hlock, hperforms⟩ := passes_begin c (g.inWorld v).world job
    exact ⟨hevents, hdeeds, hlock, hperforms⟩
  have hcount : ∀ v, (next v).tick = v.tick + 1 ∧ (next v).registry = v.registry := fun v =>
    (worldOf_same (g.inWorld v).world job).2
  refine ⟨(job.asked (c.client job.request g.world.client).1).map (g.begun.length, ·), ?_, ?_⟩
  · rw [hbegin]
    exact .asks hqueue haccepted (hpasses g.world) (hcount g.world).1 (hcount g.world).2
  · intro v stop hclient htick _
    have hv := hpasses v
    rw [hclient] at hv
    refine ⟨next v, by rw [map_snd_label]; exact hv, ?_, ?_⟩
    · rw [hbegin]
      exact (hcount v).1.trans ((congrArg (· + 1) htick).trans (hcount g.world).1.symm)
    · rw [hbegin, hbegin, hclient]
      rfl

theorem isMove_refused {job : Job α} {queue : List (Job α)} {e : Event} {m : Text}
    (hqueue : g.queue = job :: queue) (hopening : job.opening = some e)
    (hm : c.observer e = some m) : IsMove c g .begin := by
  have hbegin : ∀ v, (g.inWorld v).step c .begin
      = g.begins queue .gone (some (job.refused m)) ((g.inWorld v).world.tell e) := fun v =>
    begin_refused (g := g.inWorld v) hqueue hopening hm
  have hpasses : ∀ v, Passes c v [.told e] ((g.inWorld v).world.tell e) := fun v =>
    (Passes.tell c v e).recount v.registry (v.tick + 1)
  refine ⟨[(g.begun.length, .told e)], ?_, ?_⟩
  · rw [hbegin]
    exact .refused hqueue hopening hm (hpasses g.world)
  · intro v stop _ htick _
    refine ⟨_, hpasses v, ?_, ?_⟩
    · rw [hbegin]
      exact congrArg (· + 1) htick
    · rw [hbegin, hbegin]
      rfl

theorem isMove_begin (hcan : g.canBegin c = true) : IsMove c g .begin := by
  rw [canBegin, Bool.and_eq_true] at hcan
  obtain ⟨job, queue, hqueue⟩ := List.exists_cons_of_ne_nil (l := g.queue) (by simpa using hcan.1)
  cases hopening : job.opening with
  | none =>
      refine isMove_asks hqueue fun e he => ?_
      rw [hopening] at he
      cases he
  | some e =>
      cases hobserver : c.observer e with
      | none =>
          refine isMove_asks hqueue fun e' he' => ?_
          rw [hopening] at he'
          obtain rfl := Option.some.inj he'
          exact hobserver
      | some m => exact isMove_refused hqueue hopening hobserver

theorem isMove_cancel (hcan : g.canCancel = true) : IsMove c g .cancel := by
  rw [canCancel, Bool.and_eq_true, Bool.and_eq_true] at hcan
  obtain ⟨⟨hfailed, hrunning⟩, -⟩ := hcan
  obtain ⟨t, ht⟩ := Option.isSome_iff_exists.mp hfailed
  refine ⟨[], .cancels ht (by simpa using hrunning) ((Passes.refl c _).recount _ _), ?_⟩
  intro v stop _ htick _
  refine ⟨(g.inWorld v).world, (Passes.refl c v).recount _ _, ?_, rfl⟩
  exact congrArg (· + 1) htick

/-- Every possible move goes as described. -/
theorem isMove_of_mem {m : Move} (hm : m ∈ g.moves c)
    (hsteady : ∀ job reply, .asking job reply ∈ g.begun → job.IsSteady) : IsMove c g m := by
  rcases mem_moves.mp hm with ⟨i, p, hfound, hmove⟩ | ⟨rfl, hcan⟩ | ⟨rfl, hcan⟩
  · refine (isTurn_of_move hfound hmove ?_).isMove hfound
    rintro job reply rfl
    exact hsteady job reply (List.mem_of_getElem? hfound)
  · exact isMove_begin hcan
  · exact isMove_cancel hcan

end

/-! ## The end of a gathering -/

end Gathering

/-- How many moves a job in this phase can still make, at most. -/
def Phase.load : Phase α → Nat
  | .asking _ _ => 7
  | .waiting _ _ => 6
  | .writing _ _ (.ok left) => left.length + 1
  | .writing _ _ (.error _) => 1
  | .abandoned _ left => left.length + 1
  | .ended _ | .gone => 0

theorem Turn.load_lt {c : Conditions σ} {s s' : Guards} {p p' : Phase α} {acts : List Act}
    {t : Option Trouble} (h : Turn c s p acts p' s' t) : p'.load < p.load := by
  cases h with
  | @enters f k _ =>
      cases hwork : f.work with
      | error e => exact Nat.lt_of_sub_eq_succ rfl
      | ok ops => exact Nat.lt_of_le_of_lt (Nat.succ_le_succ (f.few ops hwork)) (Nat.lt_add_one 5)
  | _ => simp [Phase.load]

theorem Phase.load_cancelled (p : Phase α) : p.cancelled.load ≤ p.load := by
  cases p with
  | writing f k left => cases left <;> simp [Phase.cancelled, Phase.load]
  | _ => simp [Phase.cancelled, Phase.load]

theorem sum_load_set {phases : List (Phase α)} {i : Nat} {p p' : Phase α}
    (hfound : phases[i]? = some p) (h : p'.load < p.load) :
    ((phases.set i p').map Phase.load).sum < (phases.map Phase.load).sum := by
  induction phases generalizing i with
  | nil => cases hfound
  | cons first rest ih =>
      cases i with
      | zero =>
          obtain rfl := Option.some.inj hfound
          exact Nat.add_lt_add_right h _
      | succ i => exact Nat.add_lt_add_left (ih hfound) _

theorem sum_load_cancelled (phases : List (Phase α)) :
    ((phases.map Phase.cancelled).map Phase.load).sum ≤ (phases.map Phase.load).sum := by
  induction phases with
  | nil => exact Nat.le_refl 0
  | cons first rest ih => exact Nat.add_le_add first.load_cancelled ih

namespace Gathering

def load (g : Gathering σ α) : Nat :=
  8 * g.queue.length + (g.begun.map Phase.load).sum + (!g.cancelled).toNat

theorem Goes.load_lt {c : Conditions σ} {g g' : Gathering σ α} {entries : List (Nat × Act)}
    (h : Goes c g entries g') : g'.load < g.load := by
  cases h with
  | asks next _ _ _ _ =>
      simp only [load, begins, next, List.length_cons, List.map_append, List.sum_append,
        List.map_singleton, List.sum_singleton, Phase.load]
      omega
  | refused next _ _ _ =>
      simp only [load, begins, next, List.length_cons, List.map_append, List.sum_append,
        List.map_singleton, List.sum_singleton, Phase.load]
      omega
  | turns found turn _ _ _ =>
      have hlt := sum_load_set found turn.load_lt
      simp only [load, after]
      omega
  | cancels _ running _ =>
      have hle := sum_load_cancelled g.begun
      simp only [load, cancel, running, List.length_nil, Bool.not_true, Bool.not_false,
        Bool.toNat_true, Bool.toNat_false]
      omega

end Gathering

/-- A turn takes a lock only to write under it, and ends to write only to give it back. -/
theorem Turn.held {c : Conditions σ} {s s' : Guards} {p p' : Phase α} {acts : List Act}
    {t : Option Trouble} (h : Turn c s p acts p' s' t) {k : Nat} (hk : s'.held k = true) :
    (∃ f left, p' = .writing f k left)
      ∨ (s.held k = true ∧ ∀ f left, p ≠ .writing f k left) := by
  have hgiven : ∀ {j : Nat}, (s.set j false).held k = true → s.held k = true ∧ k ≠ j := by
    intro j h
    by_cases hkj : k = j
    · rw [hkj, s.held_set_self] at h
      cases h
    · rw [s.held_set_of_ne hkj] at h
      exact ⟨h, hkj⟩
  cases h with
  | @enters f j _ =>
      by_cases hkj : k = j
      · subst hkj
        exact Or.inl ⟨f, f.work, rfl⟩
      · rw [s.held_set_of_ne hkj] at hk
        refine Or.inr ⟨hk, ?_⟩
        intro f' left h
        cases h
  | @works f j op left =>
      by_cases hkj : k = j
      · subst hkj
        exact Or.inl ⟨f, .ok left, rfl⟩
      · refine Or.inr ⟨hk, ?_⟩
        rintro _ _ ⟨⟩
        exact hkj rfl
  | @breaks f j op left e =>
      by_cases hkj : k = j
      · subst hkj
        exact Or.inl ⟨f, .error (.file e), rfl⟩
      · refine Or.inr ⟨hk, ?_⟩
        rintro _ _ ⟨⟩
        exact hkj rfl
  | closes _ | refused _ | gives _ =>
      obtain ⟨hheld, hkj⟩ := hgiven hk
      refine Or.inr ⟨hheld, ?_⟩
      rintro _ _ ⟨⟩
      exact hkj rfl
  | fails _ | ends _ | waits _ | worksOn | breaksOff _ | vanishes =>
      refine Or.inr ⟨hk, ?_⟩
      intro f left h
      cases h

namespace Gathering

/-- Every lock that is held is held by a job that writes. -/
def IsGuarded (g : Gathering σ α) : Prop :=
  ∀ k, g.held k = true → ∃ (i : Nat) (f : Filing α) (left : Except StoreError (List FileOperation)),
    g.begun[i]? = some (.writing f k left)

theorem Goes.isGuarded {c : Conditions σ} {g g' : Gathering σ α} {entries : List (Nat × Act)}
    (h : Goes c g entries g') (hg : g.IsGuarded) : g'.IsGuarded := by
  intro k hk
  cases h with
  | asks _ _ _ _ _ | refused _ _ _ _ =>
      obtain ⟨i, f, left, hfound⟩ := hg k hk
      have hlt : i < g.begun.length := (List.getElem?_eq_some_iff.mp hfound).1
      exact ⟨i, f, left, (List.getElem?_append_left hlt).trans hfound⟩
  | @turns i p p' _ s _ _ found turn _ _ _ =>
      have hlt : i < g.begun.length := (List.getElem?_eq_some_iff.mp found).1
      rcases turn.held hk with ⟨f, left, rfl⟩ | ⟨hheld, hnot⟩
      · exact ⟨i, f, left, List.getElem?_set_self hlt⟩
      · obtain ⟨j, f, left, hfound⟩ := hg k hheld
        refine ⟨j, f, left, ?_⟩
        have hji : i ≠ j := by
          rintro rfl
          rw [found] at hfound
          exact hnot f left (Option.some.inj hfound)
        exact (List.getElem?_set_ne hji).trans hfound
  | cancels _ _ _ => cases hk

structure IsSettled (g : Gathering σ α) : Prop where
  queue : g.queue = []
  begun : ∀ p ∈ g.begun, p.isOver = true

/-- Where no move is possible, nothing is open: a job that waits for a lock waits for one that can
move. -/
theorem isSettled_of_moves {c : Conditions σ} {g : Gathering σ α} (hg : g.IsGuarded)
    (h : g.moves c = []) : g.IsSettled := by
  have hstill : ∀ i p, g.begun[i]? = some p → g.moveOf i p = none := by
    intro i p hfound
    cases hmove : g.moveOf i p with
    | none => rfl
    | some m =>
        have hmem : m ∈ g.moves c := mem_moves.mpr (Or.inl ⟨i, p, hfound, hmove⟩)
        rw [h] at hmem
        cases hmem
  have hover : ∀ p ∈ g.begun, p.isOver = true := by
    intro p hp
    obtain ⟨i, hfound⟩ := List.mem_iff_getElem?.mp hp
    have hnone := hstill i p hfound
    cases p with
    | asking job reply => cases hnone
    | waiting f k =>
        rw [moveOf] at hnone
        split at hnone
        · rename_i hheld
          obtain ⟨j, f', left, hwriting⟩ := hg k hheld
          have hnone' := hstill j _ hwriting
          rcases left with _ | _ | _ <;> cases hnone'
        · cases hnone
    | writing f k left => rcases left with _ | _ | _ <;> cases hnone
    | abandoned k left => cases left <;> cases hnone
    | ended a => rfl
    | gone => rfl
  refine ⟨?_, hover⟩
  by_contra hqueue
  have hasking : g.begun.filter Phase.isAsking = [] := by
    refine List.filter_eq_nil_iff.mpr fun p hp hasking => ?_
    have hnot := hover p hp
    cases p with
    | asking job reply => cases hnot
    | _ => cases hasking
  have hcan : g.canBegin c = true := by
    rw [canBegin, hasking, Bool.and_eq_true]
    refine ⟨by simpa using hqueue, decide_eq_true ?_⟩
    exact Int.lt_of_lt_of_le Int.zero_lt_one (Int.le_max_left 1 _)
  have hmem : Move.begin ∈ g.moves c := mem_moves.mpr (Or.inr (Or.inl ⟨rfl, hcan⟩))
  rw [h] at hmem
  cases hmem

theorem isSettled_of_load {g : Gathering σ α} (h : g.load = 0) : g.IsSettled := by
  have hparts : g.queue.length = 0 ∧ (g.begun.map Phase.load).sum = 0 := by
    rw [load] at h
    omega
  refine ⟨List.length_eq_zero_iff.mp hparts.1, ?_⟩
  intro p hp
  have hle : p.load ≤ (g.begun.map Phase.load).sum := List.le_sum_of_mem (List.mem_map_of_mem hp)
  have hload : p.load = 0 := Nat.le_zero.mp (hparts.2 ▸ hle)
  cases p with
  | writing f k left => cases left <;> cases hload
  | asking | waiting | abandoned => cases hload
  | ended a => rfl
  | gone => rfl

/-- Moves one after another, with all that has been done by which job. -/
inductive Reaches (c : Conditions σ) (start : Gathering σ α) :
    List (Nat × Act) → Gathering σ α → Prop where
  | refl : Reaches c start [] start
  | move {history entries : List (Nat × Act)} {g g' : Gathering σ α}
      (reaches : Reaches c start history g) (goes : Goes c g entries g') :
      Reaches c start (history ++ entries) g'

theorem Reaches.trans {c : Conditions σ} {start middle stop : Gathering σ α}
    {front back : List (Nat × Act)} (hfront : Reaches c start front middle)
    (hback : Reaches c middle back stop) : Reaches c start (front ++ back) stop := by
  induction hback with
  | refl =>
      rw [List.append_nil]
      exact hfront
  | move _ goes ih =>
      rw [← List.append_assoc]
      exact ih.move goes

theorem Reaches.passes {c : Conditions σ} {start g : Gathering σ α} {history : List (Nat × Act)}
    (h : Reaches c start history g) : Passes c start.world (history.map Prod.snd) g.world := by
  induction h with
  | refl => exact .refl c start.world
  | move _ goes ih =>
      rw [List.map_append]
      exact ih.trans goes.passes

structure IsSteady (g : Gathering σ α) : Prop where
  queue : ∀ job ∈ g.queue, job.IsSteady
  begun : ∀ job reply, .asking job reply ∈ g.begun → job.IsSteady

theorem Goes.isSteady {c : Conditions σ} {g g' : Gathering σ α} {entries : List (Nat × Act)}
    (h : Goes c g entries g') (hg : g.IsSteady) : g'.IsSteady := by
  cases h with
  | @asks job queue reply _ next _ _ _ _ =>
      have hqueue := hg.queue
      rw [next, List.forall_mem_cons] at hqueue
      refine ⟨hqueue.2, ?_⟩
      intro job' reply' hmem
      rcases List.mem_append.mp hmem with hmem | hmem
      · exact hg.begun job' reply' hmem
      · obtain ⟨rfl, -⟩ := Phase.asking.inj (List.mem_singleton.mp hmem)
        exact hqueue.1
  | refused next _ _ _ =>
      have hqueue := hg.queue
      rw [next, List.forall_mem_cons] at hqueue
      refine ⟨hqueue.2, ?_⟩
      intro job' reply' hmem
      rcases List.mem_append.mp hmem with hmem | hmem
      · exact hg.begun job' reply' hmem
      · cases List.mem_singleton.mp hmem
  | turns found turn _ _ _ =>
      refine ⟨hg.queue, ?_⟩
      intro job reply hmem
      rcases List.mem_or_eq_of_mem_set hmem with hmem | rfl
      · exact hg.begun job reply hmem
      · cases turn
  | cancels _ _ _ =>
      refine ⟨nofun, ?_⟩
      intro job reply hmem
      obtain ⟨p, -, hp⟩ := List.mem_map.mp hmem
      cases p with
      | writing f k left => cases left <;> cases hp
      | _ => cases hp

/-- The choice of the schedule is made unless no move is possible. -/
theorem moves_choice (c : Conditions σ) (g : Gathering σ α) :
    (g.moves c = [] ∧ (g.moves c)[c.schedule g.world.tick % (g.moves c).length]? = none)
      ∨ ∃ m ∈ g.moves c, (g.moves c)[c.schedule g.world.tick % (g.moves c).length]? = some m := by
  rcases List.eq_nil_or_concat (g.moves c) with h | ⟨front, last, h⟩
  · exact Or.inl ⟨h, by rw [h]; rfl⟩
  · right
    have hlt : c.schedule g.world.tick % (g.moves c).length < (g.moves c).length :=
      Nat.mod_lt _ (by simp [h])
    exact ⟨_, List.getElem_mem hlt, List.getElem?_eq_getElem hlt⟩

theorem run_succ_of_none {c : Conditions σ} {g : Gathering σ α}
    (h : (g.moves c)[c.schedule g.world.tick % (g.moves c).length]? = none) (n : Nat) :
    run c (n + 1) g = g := by
  rw [run]
  dsimp only
  rw [h]

theorem run_succ_of_some {c : Conditions σ} {g : Gathering σ α} {m : Move}
    (h : (g.moves c)[c.schedule g.world.tick % (g.moves c).length]? = some m) (n : Nat) :
    run c (n + 1) g = run c n ((g.inWorld g.world).step c m) := by
  rw [run]
  dsimp only
  rw [h]
  rfl

/-- A gathering is run to its end, if there is fuel for all the moves that it can make. -/
theorem run_reaches {c : Conditions σ} {n : Nat} {g : Gathering σ α} (hsteady : g.IsSteady)
    (hguarded : g.IsGuarded) (hload : g.load ≤ n) :
    ∃ history, Reaches c g history (run c n g) ∧ (run c n g).IsSettled
      ∧ ∀ v stop, v.client = g.world.client → v.tick = g.world.tick →
        Performs c (v.files, v.client) (history.map Prod.snd) stop →
        ∃ v', Passes c v (history.map Prod.snd) v' ∧ v'.tick = (run c n g).world.tick
          ∧ run c n { g with world := v } = { run c n g with world := v' } := by
  induction n generalizing g with
  | zero =>
      refine ⟨[], .refl, isSettled_of_load (Nat.le_zero.mp hload), ?_⟩
      intro v stop _ htick _
      exact ⟨v, .refl c v, htick, rfl⟩
  | succ n ih =>
      have hsame : ∀ {v : World σ}, v.tick = g.world.tick →
          ({ g with world := v }.moves c)[c.schedule v.tick % ({ g with world := v }.moves c).length]?
            = (g.moves c)[c.schedule g.world.tick % (g.moves c).length]? := by
        intro v hv
        rw [hv]
        rfl
      rcases moves_choice c g with ⟨hnone, hchoice⟩ | ⟨m, hm, hchoice⟩
      · rw [run_succ_of_none hchoice]
        refine ⟨[], .refl, isSettled_of_moves hguarded hnone, ?_⟩
        intro v stop _ htick _
        exact ⟨v, .refl c v, htick, run_succ_of_none ((hsame htick).trans hchoice) n⟩
      · rw [run_succ_of_some hchoice]
        obtain ⟨entries, hgoes, hagain⟩ := isMove_of_mem hm hsteady.begun
        have hless := hgoes.load_lt
        obtain ⟨history, hreaches, hsettled, hagain'⟩ :=
          ih (hgoes.isSteady hsteady) (hgoes.isGuarded hguarded) (by omega)
        refine ⟨entries ++ history, ?_, hsettled, ?_⟩
        · have hfirst := Reaches.refl.move hgoes
          rw [List.nil_append] at hfirst
          exact hfirst.trans hreaches
        · intro v stop hclient htick hperforms
          rw [List.map_append] at hperforms ⊢
          obtain ⟨middle, hfront, hback⟩ := hperforms.append_inv
          obtain ⟨v', hpasses, htick', hstep⟩ := hagain v middle hclient htick hfront
          obtain rfl := hfront.unique hpasses.performs
          have hclient' : v'.client = ((g.inWorld g.world).step c m).world.client := by
            have hperforms' := hpasses.performs
            rw [hclient] at hperforms'
            exact hgoes.passes.performs.client_eq hperforms'
          obtain ⟨v'', hpasses', htick'', hrest⟩ := hagain' v' stop hclient' htick' hback
          refine ⟨v'', hpasses.trans hpasses', htick'', ?_⟩
          rw [run_succ_of_some ((hsame htick).trans hchoice)]
          show run c n ((g.inWorld v).step c m) = _
          rw [hstep]
          exact hrest

end Gathering

end TaskContract
