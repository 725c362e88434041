import TaskContract.Pipeline.Run
import TaskContract.Proofs.Files.Growth
import TaskContract.Proofs.Sequence

/-!
# What a part of a run does

A part of a run tells events, asks the client, and changes files. These are its acts, each with what
comes of it. `Passes c w acts w'` says that the acts lead from one world to another, in whose logs
they stand in order. `Does c m Q` describes every run of the part `m` by its result and its acts,
and says that these decide: in a world in which the same acts can be done, the part does them again
with the same result. There is a rule for each way to put parts together.
-/

namespace TaskContract

variable {σ : Type}

inductive Act where
  | told (e : Event)
  | asked (r : Chat.Request) (reply : Chat.Reply)
  | filed (op : FileOperation) (result : Except FileError Unit)

namespace Act

def event? : Act → Option Event
  | told e => some e
  | _ => none

def deed? : Act → Option Deed
  | told _ => none
  | asked r _ => some (.asked r)
  | filed op result => some (.filed op result.isOk)

def question? : Act → Option (Chat.Request × Chat.Reply)
  | asked r reply => some (r, reply)
  | _ => none

end Act

/-! ## Replies in order -/

namespace Chat.Client

def replies (client : Chat.Client σ) : List Chat.Request → σ → List Chat.Reply
  | [], _ => []
  | r :: rest, s => (client r s).1 :: client.replies rest (client r s).2

def after (client : Chat.Client σ) : List Chat.Request → σ → σ
  | [], s => s
  | r :: rest, s => client.after rest (client r s).2

variable (client : Chat.Client σ)

@[simp] theorem length_replies (rs : List Chat.Request) (s : σ) :
    (client.replies rs s).length = rs.length := by
  induction rs generalizing s with
  | nil => rfl
  | cons r rest ih => simp [replies, ih]

theorem replies_append (front back : List Chat.Request) (s : σ) :
    client.replies (front ++ back) s
      = client.replies front s ++ client.replies back (client.after front s) := by
  induction front generalizing s with
  | nil => rfl
  | cons r rest ih => simp [replies, after, ih]

theorem after_append (front back : List Chat.Request) (s : σ) :
    client.after (front ++ back) s = client.after back (client.after front s) := by
  induction front generalizing s with
  | nil => rfl
  | cons r rest ih => exact ih _

end Chat.Client

/-! ## What acts lead to -/

/-- Acts lead from some files and a state of the client to others. -/
inductive Performs (c : Conditions σ) : FileTree × σ → List Act → FileTree × σ → Prop where
  | nil (start : FileTree × σ) : Performs c start [] start
  | told {start stop : FileTree × σ} {acts : List Act} (e : Event)
      (rest : Performs c start acts stop) : Performs c start (.told e :: acts) stop
  | asked {files : FileTree} {state : σ} {acts : List Act} {stop : FileTree × σ}
      {r : Chat.Request} {reply : Chat.Reply} (answer : (c.client r state).1 = reply)
      (rest : Performs c (files, (c.client r state).2) acts stop) :
      Performs c (files, state) (.asked r reply :: acts) stop
  | filed {files : FileTree} {state : σ} {acts : List Act} {stop : FileTree × σ}
      {op : FileOperation} {result : Except FileError Unit}
      (ending : (files.perform c.disk op).1 = result)
      (rest : Performs c ((files.perform c.disk op).2, state) acts stop) :
      Performs c (files, state) (.filed op result :: acts) stop

namespace Performs

variable {c : Conditions σ} {start middle stop stop' : FileTree × σ} {acts front back : List Act}

theorem append (hfront : Performs c start front middle) (hback : Performs c middle back stop) :
    Performs c start (front ++ back) stop := by
  induction hfront with
  | nil => exact hback
  | told e _ ih => exact .told e (ih hback)
  | asked answer _ ih => exact .asked answer (ih hback)
  | filed ending _ ih => exact .filed ending (ih hback)

theorem append_inv (h : Performs c start (front ++ back) stop) :
    ∃ middle, Performs c start front middle ∧ Performs c middle back stop := by
  induction front generalizing start with
  | nil => exact ⟨start, .nil start, h⟩
  | cons act rest ih =>
      cases h with
      | told e hrest =>
          obtain ⟨middle, hfront, hback⟩ := ih hrest
          exact ⟨middle, .told e hfront, hback⟩
      | asked answer hrest =>
          obtain ⟨middle, hfront, hback⟩ := ih hrest
          exact ⟨middle, .asked answer hfront, hback⟩
      | filed ending hrest =>
          obtain ⟨middle, hfront, hback⟩ := ih hrest
          exact ⟨middle, .filed ending hfront, hback⟩

theorem nil_inv (h : Performs c start [] stop) : stop = start := by
  cases h
  rfl

theorem told_inv {e : Event} (h : Performs c start (.told e :: acts) stop) :
    Performs c start acts stop := by
  cases h with
  | told _ rest => exact rest

theorem unique (h : Performs c start acts stop) (h' : Performs c start acts stop') :
    stop' = stop := by
  induction h with
  | nil => exact h'.nil_inv
  | told e _ ih =>
      cases h' with
      | told _ rest => exact ih rest
  | asked _ _ ih =>
      cases h' with
      | asked _ rest => exact ih rest
  | filed _ _ ih =>
      cases h' with
      | filed _ rest => exact ih rest

theorem grows (h : Performs c start acts stop) : start.1.Grows stop.1 := by
  induction h with
  | nil start => exact FileTree.Grows.refl start.1
  | told _ _ ih | asked _ _ ih => exact ih
  | @filed files _ _ _ op _ _ _ ih => exact (files.perform_grows op c.disk).trans ih

/-- What becomes of the client does not depend on the files. -/
theorem client_eq {files files' : FileTree} {state : σ} (h : Performs c (files, state) acts stop)
    (h' : Performs c (files', state) acts stop') : stop'.2 = stop.2 := by
  induction acts generalizing files files' state with
  | nil => rw [h.nil_inv, h'.nil_inv]
  | cons act rest ih =>
      cases h with
      | told e hrest =>
          cases h' with
          | told _ hrest' => exact ih hrest hrest'
      | asked _ hrest =>
          cases h' with
          | asked _ hrest' => exact ih hrest hrest'
      | filed _ hrest =>
          cases h' with
          | filed _ hrest' => exact ih hrest hrest'

/-- The client sees nothing but the requests. -/
theorem replies (h : Performs c start acts stop) :
    (acts.filterMap Act.question?).map Prod.snd
        = c.client.replies ((acts.filterMap Act.question?).map Prod.fst) start.2
      ∧ stop.2 = c.client.after ((acts.filterMap Act.question?).map Prod.fst) start.2 := by
  induction h with
  | nil start => exact ⟨rfl, rfl⟩
  | told _ _ ih => exact ih
  | asked answer _ ih =>
      refine ⟨?_, ih.2⟩
      rw [← answer]
      exact congrArg (_ :: ·) ih.1
  | filed _ _ ih => exact ih

end Performs

/-- Acts lead from a world to another, where they have been logged. -/
structure Passes (c : Conditions σ) (w : World σ) (acts : List Act) (w' : World σ) : Prop where
  events : w'.events = (acts.filterMap Act.event?).reverse ++ w.events
  deeds : w'.deeds = (acts.filterMap Act.deed?).reverse ++ w.deeds
  lock : w'.lock = w.lock
  performs : Performs c (w.files, w.client) acts (w'.files, w'.client)

namespace Passes

variable {c : Conditions σ} {w w' w'' : World σ} {acts front back : List Act}

theorem refl (c : Conditions σ) (w : World σ) : Passes c w [] w :=
  ⟨rfl, rfl, rfl, .nil _⟩

theorem trans (h : Passes c w front w') (h' : Passes c w' back w'') :
    Passes c w (front ++ back) w'' where
  events := by
    rw [h'.events, h.events, List.filterMap_append, List.reverse_append, List.append_assoc]
  deeds := by
    rw [h'.deeds, h.deeds, List.filterMap_append, List.reverse_append, List.append_assoc]
  lock := h'.lock.trans h.lock
  performs := h.performs.append h'.performs

theorem tell (c : Conditions σ) (w : World σ) (e : Event) : Passes c w [.told e] (w.tell e) :=
  ⟨rfl, rfl, rfl, .told e (.nil _)⟩

theorem ask (c : Conditions σ) (w : World σ) (r : Chat.Request) :
    Passes c w [.asked r (w.ask c r).1] (w.ask c r).2 :=
  ⟨rfl, rfl, rfl, .asked rfl (.nil _)⟩

theorem perform (c : Conditions σ) (w : World σ) (op : FileOperation) :
    Passes c w [.filed op (w.perform c op).1] (w.perform c op).2 :=
  ⟨rfl, rfl, rfl, .filed rfl (.nil _)⟩

/-- Neither the registry nor the number of choices matters. -/
theorem recount (h : Passes c w acts w') (registry : Schema.Registry) (tick : Nat) :
    Passes c w acts { w' with registry, tick } :=
  ⟨h.events, h.deeds, h.lock, h.performs⟩

end Passes

def filedAll (ops : List FileOperation) : List Act :=
  ops.map fun op => .filed op (.ok ())

theorem filedAll_append (front back : List FileOperation) :
    filedAll (front ++ back) = filedAll front ++ filedAll back :=
  List.map_append ..

theorem event_filedAll (ops : List FileOperation) : (filedAll ops).filterMap Act.event? = [] :=
  List.filterMap_eq_nil_iff.mpr fun act hact => by
    obtain ⟨op, -, rfl⟩ := List.mem_map.mp hact
    rfl

theorem question_filedAll (ops : List FileOperation) :
    (filedAll ops).filterMap Act.question? = [] :=
  List.filterMap_eq_nil_iff.mpr fun act hact => by
    obtain ⟨op, -, rfl⟩ := List.mem_map.mp hact
    rfl

/-! ## Parts of a run -/

namespace Run

variable {α β : Type} {c : Conditions σ}

/-- Where the same acts can be done, with the same client and at the same choice, the part does them
again and has the same result. -/
def IsRedone (c : Conditions σ) (m : Run σ α) (w : World σ) (acts : List Act) : Prop :=
  ∀ v stop, v.client = w.client → v.tick = w.tick → Performs c (v.files, v.client) acts stop →
    ∃ v', m.run v = ((m.run w).1, v') ∧ Passes c v acts v' ∧ v'.tick = (m.run w).2.tick

/-- Every run of the part has a result and acts that are as described, and the acts decide. -/
def Does (c : Conditions σ) (m : Run σ α) (Q : Except Trouble α → List Act → Prop) : Prop :=
  ∀ w, ∃ acts, Passes c w acts (m.run w).2 ∧ Q (m.run w).1 acts ∧ IsRedone c m w acts

section

variable {m : Run σ α} {f : α → Run σ β} {P : Except Trouble α → List Act → Prop}
  {Q : Except Trouble β → List Act → Prop}

theorem Does.imp {P' : Except Trouble α → List Act → Prop} (hm : Does c m P)
    (h : ∀ r acts, P r acts → P' r acts) : Does c m P' := by
  intro w
  obtain ⟨acts, hpasses, hP, hredone⟩ := hm w
  exact ⟨acts, hpasses, h _ _ hP, hredone⟩

theorem does_pure {a : α} (h : P (.ok a) []) : Does c (pure a : Run σ α) P := by
  intro w
  refine ⟨[], .refl c w, h, ?_⟩
  intro v stop _ htick _
  exact ⟨v, rfl, .refl c v, htick⟩

theorem does_throw {e : Trouble} (h : P (.error e) []) : Does c (throw e : Run σ α) P := by
  intro w
  refine ⟨[], .refl c w, h, ?_⟩
  intro v stop _ htick _
  exact ⟨v, rfl, .refl c v, htick⟩

/-- The second part goes on from where the first one has led. -/
theorem Does.bind (hm : Does c m P)
    (hok : ∀ a acts, P (.ok a) acts → Does c (f a) fun r later => Q r (acts ++ later))
    (herror : ∀ e acts, P (.error e) acts → Q (.error e) acts) : Does c (m >>= f) Q := by
  intro w
  obtain ⟨acts, hpasses, hP, hredone⟩ := hm w
  unfold IsRedone at hredone ⊢
  cases hrun : m.run w with
  | mk r w' =>
      rw [hrun] at hpasses hP hredone
      cases r with
      | error e =>
          refine ⟨acts, ?_, ?_, ?_⟩
          · rw [run_bind, hrun]
            exact hpasses
          · rw [run_bind, hrun]
            exact herror e acts hP
          · intro v stop hclient htick hperforms
            obtain ⟨v', hv, hpasses', htick'⟩ := hredone v stop hclient htick hperforms
            refine ⟨v', ?_, hpasses', ?_⟩
            · rw [run_bind, run_bind, hv, hrun]
            · rw [run_bind, hrun]
              exact htick'
      | ok a =>
          obtain ⟨later, hlater, hQ, hredone'⟩ := hok a acts hP w'
          have hboth : (m >>= f).run w = (f a).run w' := by rw [run_bind, hrun]
          rw [hboth]
          refine ⟨acts ++ later, hpasses.trans hlater, hQ, ?_⟩
          intro v stop hclient htick hperforms
          obtain ⟨middle, hfront, hback⟩ := hperforms.append_inv
          obtain ⟨v', hv, hpasses', htick'⟩ := hredone v middle hclient htick hfront
          obtain rfl := hfront.unique hpasses'.performs
          have hpassesv := hpasses'.performs
          rw [hclient] at hpassesv
          obtain ⟨v'', hv', hlater', htick''⟩ :=
            hredone' v' stop (hpasses.performs.client_eq hpassesv) htick' hback
          refine ⟨v'', ?_, hpasses'.trans hlater', htick''⟩
          rw [run_bind, hv]
          exact hv'

end

/-- The observer is told of the event, and the run goes on unless the observer fails. -/
theorem run_emit (c : Conditions σ) (e : Event) (w : World σ) :
    (emit c e).run w
      = (match c.observer e with
        | none => .ok ()
        | some m => .error (.observer m), w.tell e) := by
  rw [emit, run_bind, run_modify]
  dsimp only
  cases c.observer e <;> rfl

inductive Emits (c : Conditions σ) (e : Event) : Except Trouble Unit → List Act → Prop where
  | accepted (acceptance : c.observer e = none) : Emits c e (.ok ()) [.told e]
  | refused {m : Text} (refusal : c.observer e = some m) :
      Emits c e (.error (.observer m)) [.told e]

theorem does_emit (c : Conditions σ) (e : Event) : Does c (emit c e) (Emits c e) := by
  intro w
  rw [run_emit]
  refine ⟨[.told e], .tell c w e, ?_, ?_⟩
  · cases h : c.observer e with
    | none => exact .accepted h
    | some m => exact .refused h
  · intro v stop _ htick _
    rw [run_emit, run_emit]
    exact ⟨v.tell e, rfl, .tell c v e, htick⟩

theorem does_emit_bind {β : Type} {e : Event} {f : Unit → Run σ β}
    {Q : Except Trouble β → List Act → Prop}
    (hrefused : ∀ m, c.observer e = some m → Q (.error (.observer m)) [.told e])
    (haccepted : c.observer e = none → Does c (f ()) fun r later => Q r (.told e :: later)) :
    Does c (emit c e >>= f) Q := by
  refine (does_emit c e).bind ?accepted ?refused
  case accepted =>
    rintro _ _ hemits
    cases hemits with
    | accepted acceptance => exact haccepted acceptance
  case refused =>
    rintro _ _ hemits
    cases hemits with
    | refused refusal => exact hrefused _ refusal

/-! ## Files -/

inductive Files (fail : FileError → Trouble) (ops : List FileOperation) :
    Except Trouble Unit → List Act → Prop where
  | all : Files fail ops (.ok ()) (filedAll ops)
  | upTo {front : List FileOperation} {op : FileOperation} {back : List FileOperation}
      (split : ops = front ++ op :: back) (e : FileError) :
      Files fail ops (.error (fail e)) (filedAll front ++ [Act.filed op (.error e)])

theorem Files.cons {fail : FileError → Trouble} {ops : List FileOperation}
    {r : Except Trouble Unit} {acts : List Act} (h : Files fail ops r acts) (op : FileOperation) :
    Files fail (op :: ops) r ([Act.filed op (.ok ())] ++ acts) := by
  cases h with
  | all => exact .all
  | @upTo front op' back split e =>
      rw [split]
      exact .upTo (List.cons_append (a := op)).symm e

def fileOne (c : Conditions σ) (fail : FileError → Trouble) (op : FileOperation) : Run σ Unit :=
  fun w => ((w.perform c op).1.mapError fail, (w.perform c op).2)

theorem file_cons (c : Conditions σ) (fail : FileError → Trouble) (op : FileOperation)
    (rest : List FileOperation) :
    file c fail (op :: rest) = fileOne c fail op >>= fun _ => file c fail rest := by
  funext w
  show file c fail (op :: rest) w = (fileOne c fail op >>= fun _ => file c fail rest).run w
  have hone : (fileOne c fail op).run w
      = ((w.perform c op).1.mapError fail, (w.perform c op).2) := rfl
  rw [run_bind, hone, file]
  dsimp only
  cases w.perform c op with
  | mk r w' => cases r <;> rfl

theorem does_fileOne (c : Conditions σ) (fail : FileError → Trouble) (op : FileOperation) :
    Does c (fileOne c fail op) fun r acts =>
      ∃ result, acts = [.filed op result] ∧ r = result.mapError fail := by
  intro w
  refine ⟨_, Passes.perform c w op, ⟨_, rfl, rfl⟩, ?_⟩
  intro v stop _ htick hperforms
  cases hperforms with
  | filed ending _ =>
      have hresult : (v.perform c op).1 = (w.perform c op).1 := ending
      refine ⟨(v.perform c op).2, ?_, ?_, htick⟩
      · show ((v.perform c op).1.mapError fail, _) = ((w.perform c op).1.mapError fail, _)
        rw [hresult]
      · rw [← hresult]
        exact Passes.perform c v op

theorem does_file (c : Conditions σ) (fail : FileError → Trouble) (ops : List FileOperation) :
    Does c (file c fail ops) (Files fail ops) := by
  induction ops with
  | nil => exact does_pure .all
  | cons op rest ih =>
      rw [file_cons]
      refine (does_fileOne c fail op).bind ?_ ?_
      · rintro _ _ ⟨result, rfl, hresult⟩
        cases result with
        | error e => cases hresult
        | ok _ => exact ih.imp fun r acts h => h.cons op
      · rintro e _ ⟨result, rfl, hresult⟩
        cases result with
        | error e' =>
            obtain rfl := Except.error.inj hresult
            exact .upTo (List.nil_append _).symm e'
        | ok _ => cases hresult

end Run

end TaskContract
