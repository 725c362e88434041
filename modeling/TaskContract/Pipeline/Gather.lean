import TaskContract.Pipeline.World

/-!
# Work side by side

The questions about a task are asked side by side, and what is deduced from the replies is stored
side by side. No more questions are open at a time than the settings allow. Two artifacts may have
the same files, so there is a lock for each base name, which is held while files of that name are
written. When a part fails, the parts that have not ended are cancelled: those that wait go, and
those whose files are being written go when these are. Which of the steps that are possible comes
next is up to a schedule.
-/

namespace TaskContract

/-! ## Locks -/

/-- The locks of a run. A lock is known by its place in the list, which holds the base name that it
was made for. -/
structure ArtifactLocks where
  bases : List Text := []

/-- The lock for the files of an artifact. It is made when it is first asked for. -/
def ArtifactLocks.lockFor (l : ArtifactLocks) (artifact : Text) : Nat × ArtifactLocks :=
  let base := (Path.ofText artifact).stem
  match l.bases.idxOf? base with
  | some k => (k, l)
  | none => (l.bases.length, { bases := l.bases ++ [base] })

/-! ## Jobs -/

/-- Something to be stored under the lock of an artifact, with what comes of it. At its end the
observer is told of it. -/
structure Filing (α : Type) where
  artifact : Text
  work : Except StoreError (List FileOperation)
  /-- A directory and three files at most. -/
  few : ∀ ops, work = .ok ops → ops.length ≤ 4
  failure : StoreError → Trouble
  closing : Event
  result : α

inductive Conclusion (α : Type) where
  | failure (t : Trouble)
  | result (a : α)
  | filing (f : Filing α)

/-- One of the parts that run side by side: a request, and what follows from the reply. The observer
may be told before, and its failure then is one of the job. -/
structure Job (α : Type) where
  opening : Option Event := none
  refused : Text → Trouble := Trouble.observer
  request : Chat.Request
  conclude : Chat.Reply → Schema.Registry → Conclusion α × Schema.Registry

inductive Phase (α : Type) where
  | asking (job : Job α) (reply : Chat.Reply)
  | waiting (f : Filing α) (lock : Nat)
  /-- A thread does what is left of the work, or it has failed. -/
  | writing (f : Filing α) (lock : Nat) (left : Except StoreError (List FileOperation))
  /-- The job is cancelled, but its thread goes on. -/
  | abandoned (lock : Nat) (left : List FileOperation)
  | ended (a : α)
  | gone

namespace Phase

variable {α : Type}

def isAsking : Phase α → Bool
  | .asking _ _ => true
  | _ => false

def isOver : Phase α → Bool
  | .ended _ | .gone => true
  | _ => false

def result? : Phase α → Option α
  | .ended a => some a
  | _ => none

def cancelled : Phase α → Phase α
  | .writing _ k (.ok left) => .abandoned k left
  | .abandoned k left => .abandoned k left
  | .ended a => .ended a
  | _ => .gone

end Phase

/-! ## Steps -/

/-- Jobs that run side by side. Those that have begun are known by their places. -/
structure Gathering (σ α : Type) where
  queue : List (Job α)
  begun : List (Phase α) := []
  locks : ArtifactLocks := {}
  held : Nat → Bool := fun _ => false
  failure : Option Trouble := none
  cancelled : Bool := false
  world : World σ

inductive Move where
  | begin
  | receive (i : Nat)
  | enter (i : Nat)
  | work (i : Nat)
  | leave (i : Nat)
  | cancel
  deriving DecidableEq

namespace Gathering

variable {σ α : Type}

def setPhase (g : Gathering σ α) (i : Nat) (p : Phase α) : Gathering σ α :=
  { g with begun := g.begun.set i p }

/-- Marks a failure. It is the first one that counts. -/
def fail (g : Gathering σ α) (t : Trouble) : Gathering σ α :=
  { g with failure := g.failure.or (some t) }

def setHeld (g : Gathering σ α) (lock : Nat) (held : Bool) : Gathering σ α :=
  { g with held := fun k => if k = lock then held else g.held k }

def moveOf (g : Gathering σ α) (i : Nat) : Phase α → Option Move
  | .asking _ _ => some (.receive i)
  | .waiting _ k => if g.held k then none else some (.enter i)
  | .writing _ _ (.ok (_ :: _)) | .abandoned _ (_ :: _) => some (.work i)
  | .writing _ _ _ | .abandoned _ [] => some (.leave i)
  | .ended _ | .gone => none

def canBegin (c : Conditions σ) (g : Gathering σ α) : Bool :=
  !g.queue.isEmpty
    && ((g.begun.filter Phase.isAsking).length : Int) < max 1 c.settings.concurrency

def canCancel (g : Gathering σ α) : Bool :=
  g.failure.isSome && !g.cancelled && !(g.queue.isEmpty && g.begun.all Phase.isOver)

def moves (c : Conditions σ) (g : Gathering σ α) : List Move :=
  g.begun.zipIdx.filterMap (fun (p, i) => g.moveOf i p)
    ++ (if canBegin c g then [Move.begin] else [])
    ++ (if g.canCancel then [Move.cancel] else [])

/-- The next job in the queue begins: the observer is told, and the request is made. -/
def begin (c : Conditions σ) (g : Gathering σ α) : Gathering σ α :=
  match g.queue with
  | [] => g
  | job :: queue =>
    let ask (world : World σ) : Gathering σ α :=
      let (reply, world) := world.ask c job.request
      { g with queue, begun := g.begun ++ [Phase.asking job reply], world }
    match job.opening with
    | none => ask g.world
    | some e =>
      match c.observer e with
      | none => ask (g.world.tell e)
      | some m =>
        { g with queue, begun := g.begun ++ [Phase.gone], world := g.world.tell e }.fail
          (job.refused m)

def receive (g : Gathering σ α) (i : Nat) (job : Job α) (reply : Chat.Reply) : Gathering σ α :=
  let (conclusion, registry) := job.conclude reply g.world.registry
  let g := { g with world := { g.world with registry } }
  match conclusion with
  | .failure t => (g.setPhase i .gone).fail t
  | .result a => g.setPhase i (.ended a)
  | .filing f =>
    let (k, locks) := g.locks.lockFor f.artifact
    { g with locks }.setPhase i (.waiting f k)

/-- The thread of a job does the next thing. A thread that nobody waits for fails silently. -/
def work (c : Conditions σ) (g : Gathering σ α) (i : Nat) : Phase α → Gathering σ α
  | .writing f k (.ok (op :: left)) =>
    let (result, world) := g.world.perform c op
    let left := match result with
      | .ok () => .ok left
      | .error e => .error (.file e)
    { g with world }.setPhase i (.writing f k left)
  | .abandoned k (op :: left) =>
    let (result, world) := g.world.perform c op
    { g with world }.setPhase i (.abandoned k (if result.isOk then left else []))
  | _ => g

def leave (c : Conditions σ) (g : Gathering σ α) (i : Nat) : Phase α → Gathering σ α
  | .writing f k (.ok _) =>
    let g := { g.setHeld k false with world := g.world.tell f.closing }
    match c.observer f.closing with
    | none => g.setPhase i (.ended f.result)
    | some m => (g.setPhase i .gone).fail (.observer m)
  | .writing f k (.error e) => ((g.setHeld k false).setPhase i .gone).fail (f.failure e)
  | .abandoned _ _ => g.setPhase i .gone
  | _ => g

/-- The jobs that have not ended are cancelled. The locks are given back at once. -/
def cancel (g : Gathering σ α) : Gathering σ α :=
  { g with queue := [], begun := g.begun.map Phase.cancelled, held := fun _ => false
           cancelled := true }

def step (c : Conditions σ) (g : Gathering σ α) : Move → Gathering σ α
  | .begin => g.begin c
  | .receive i =>
    match g.begun[i]? with
    | some (.asking job reply) => g.receive i job reply
    | _ => g
  | .enter i =>
    match g.begun[i]? with
    | some (.waiting f k) => (g.setHeld k true).setPhase i (.writing f k f.work)
    | _ => g
  | .work i => (g.begun[i]?.map (g.work c i)).getD g
  | .leave i => (g.begun[i]?.map (g.leave c i)).getD g
  | .cancel => g.cancel

/-- Steps in the order of the schedule, until none is possible. -/
def run (c : Conditions σ) : (fuel : Nat) → Gathering σ α → Gathering σ α
  | 0, g => g
  | fuel + 1, g =>
    let moves := g.moves c
    match moves[c.schedule g.world.tick % moves.length]? with
    | none => g
    | some m => run c fuel ({ g with world := { g.world with tick := g.world.tick + 1 } }.step c m)

end Gathering

/-- Runs jobs side by side and gives their results in order. A failure is passed on when all the
other jobs have ended. No job takes more than eight steps. -/
def Run.gather {σ α : Type} (c : Conditions σ) (jobs : List (Job α)) : Run σ (List α) := fun w =>
  let g : Gathering σ α := Gathering.run c (8 * jobs.length + 1) { queue := jobs, world := w }
  match g.failure with
  | some t => (.error t, g.world)
  | none => (.ok (g.begun.filterMap Phase.result?), g.world)

end TaskContract
