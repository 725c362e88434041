import TaskContract.CommandLine.Program
import TaskContract.Proofs.CommandLine.Arguments
import TaskContract.Proofs.CommandLine.Deductions
import TaskContract.Proofs.Sequence

/-!
# Parts of a session

A part of a session gives a value and leads from one state to another, and parts are put together
state by state. Finding the project of a session touches neither the files nor the wire.
-/

namespace TaskContract.CommandLine

namespace Session

variable {α β : Type} {m : Session α} {f : α → Session β} {a : α} {r : Except Ending β}
  {s s' s'' : State}

/-! ## What a part gives -/

/-- The part ends with the result and leads from one state to the other. -/
def Ends (m : Session α) (s : State) (r : Except Ending α) (s' : State) : Prop :=
  m.run s = (r, s')

def Gives (m : Session α) (s : State) (a : α) (s' : State) : Prop :=
  Ends m s (.ok a) s'

theorem gives_pure (a : α) (s : State) : Gives (pure a) s a s :=
  rfl

theorem gives_get (s : State) : Gives get s s s :=
  rfl

theorem gives_set (s s' : State) : Gives (set s') s () s' :=
  rfl

theorem ends_throw (e : Ending) (s : State) : Ends (throw e : Session α) s (.error e) s :=
  rfl

theorem Gives.bind (hm : Gives m s a s') (hf : Ends (f a) s' r s'') : Ends (m >>= f) s r s'' := by
  rw [Ends, run_bind, show m.run s = _ from hm]
  exact hf

theorem Ends.bind_error {e : Ending} (hm : Ends m s (.error e) s') :
    Ends (m >>= f) s (.error e) s' := by
  rw [Ends, run_bind, show m.run s = _ from hm]

/-- What the rest of a session leads to is what the whole leads to. -/
theorem Gives.andThen {Q : State → Prop} (hm : Gives m s a s')
    (h : ∃ last, Ends (f a) s' r last ∧ Q last) : ∃ last, Ends (m >>= f) s r last ∧ Q last := by
  obtain ⟨last, hlast, hQ⟩ := h
  exact ⟨last, hm.bind hlast, hQ⟩

theorem gives_unwrap {ε : Type} {onError : ε → Session α} (a : α) (s : State) :
    Gives (unwrap onError (.ok a)) s a s :=
  rfl

theorem gives_readFile {p : Path} {t : Text} (h : s.files.read p = .ok t)
    (onError : FileError → Session Text) : Gives (readFile p onError) s t s := by
  refine (gives_get s).bind ?_
  rw [h]
  exact gives_unwrap t s

/-- A line without surrogates is printed, and nothing else is done. -/
theorem gives_say {t : Text} (h : t.isScalar = true) (s : State) :
    Gives (say t) s () { s with printed := s.printed ++ [⟨.output, Console.line t⟩] } := by
  rw [Gives, Ends, say, Console.output_of_isScalar h]
  rfl

/-- Lines are printed up to the first that cannot be shown, which ends the session. -/
theorem ends_sayAll {ι : Type} (xs : List ι) (line : ι → Text) (s : State) :
    Ends (xs.forM fun x => say (line x)) s
      (match (Console.outputs (xs.map line)).2 with
        | none => .ok ()
        | some f => .error (.fault (.output f)))
      { s with printed := s.printed ++ (Console.outputs (xs.map line)).1 } := by
  induction xs generalizing s with
  | nil =>
      rw [List.map_nil, Console.outputs, List.append_nil]
      rfl
  | cons x rest ih =>
      rw [List.map_cons, Console.outputs]
      cases hprint : Console.output (line x) with
      | error f =>
          have hsay : Ends (say (line x)) s (.error (.fault (.output f))) s := by
            rw [Ends, say, hprint]
            rfl
          dsimp only
          rw [List.append_nil]
          exact hsay.bind_error
      | ok printed =>
          have hsay : Gives (say (line x)) s () { s with printed := s.printed ++ [printed] } := by
            rw [Gives, Ends, say, hprint]
            rfl
          have hrest := ih { s with printed := s.printed ++ [printed] }
          dsimp only at hrest ⊢
          rw [List.append_assoc] at hrest
          exact hsay.bind hrest

theorem gives_connect (p : ProjectContext) (s : State) :
    Gives (connect p) s
      { environment := s.environment, maxRetries := p.configuration.model.maxRetries }
      { s with clients := p.configuration.model :: s.clients } :=
  rfl

/-! ## The project -/

/-- However the part ends, it leaves the files, the wire and the time as they are. -/
def Still (m : Session α) : Prop :=
  ∀ s, (m.run s).2.files = s.files ∧ (m.run s).2.wire = s.wire ∧ (m.run s).2.now = s.now

theorem still_pure (a : α) : Still (pure a) :=
  fun _ => ⟨rfl, rfl, rfl⟩

theorem still_throw (e : Ending) : Still (throw e : Session α) :=
  fun _ => ⟨rfl, rfl, rfl⟩

theorem still_get : Still get :=
  fun _ => ⟨rfl, rfl, rfl⟩

theorem Still.bind (hm : Still m) (hf : ∀ a, Still (f a)) : Still (m >>= f) := by
  intro s
  rw [run_bind]
  obtain ⟨hfiles, hwire, hnow⟩ := hm s
  generalize m.run s = first at hfiles hwire hnow ⊢
  obtain ⟨result, after⟩ := first
  cases result with
  | error e => exact ⟨hfiles, hwire, hnow⟩
  | ok a =>
      obtain ⟨hfiles', hwire', hnow'⟩ := hf a after
      exact ⟨hfiles'.trans hfiles, hwire'.trans hwire, hnow'.trans hnow⟩

/-- What follows a look at the state may set it. -/
theorem still_get_bind {f : State → Session β} (h : ∀ s, ((f s).run s).2.files = s.files
    ∧ ((f s).run s).2.wire = s.wire ∧ ((f s).run s).2.now = s.now) : Still (get >>= f) := by
  intro s
  rw [run_bind, run_get]
  exact h s

theorem still_complain (t : Text) : Still (complain t) :=
  fun _ => ⟨rfl, rfl, rfl⟩

theorem still_refuse (t : Text) : Still (refuse t : Session α) :=
  (still_complain _).bind fun _ => still_throw _

theorem still_fault (e : Fault) : Still (fault e : Session α) :=
  still_throw _

theorem still_unwrap {ε : Type} {onError : ε → Session α} (h : ∀ e, Still (onError e))
    (result : Except ε α) : Still (unwrap onError result) := by
  cases result with
  | ok a => exact still_pure a
  | error e => exact h e

theorem still_refuseConfiguration (e : ConfigurationError) :
    Still (refuseConfiguration e : Session α) := by
  cases e with
  | scalar f => exact still_fault _
  | file e => exact still_fault _
  | _ => exact still_refuse _

theorem still_addVariables (directory : Path) : Still (addVariables directory) := by
  refine still_get_bind ?_
  intro s
  cases s.files.read (directory / ".env") with
  | error e => exact ⟨rfl, rfl, rfl⟩
  | ok text =>
      dsimp only
      rw [run_bind, run_set]
      exact still_unwrap (fun f => still_fault (.variable f)) _
        { s with environment := (EnvironmentFile.load s.environment text).2 }

/-- Finding the project touches neither the files nor the wire. -/
theorem still_prepare (options : Arguments.Values) : Still (prepare options) := by
  refine Still.bind (still_get.bind fun _ => still_pure _) fun name => ?_
  refine Still.bind (fun _ => ⟨rfl, rfl, rfl⟩) fun _ => ?_
  refine Still.bind still_get fun s => ?_
  refine Still.bind (still_unwrap (fun e => still_fault _) _) fun found => ?_
  refine Still.bind (still_unwrap still_refuseConfiguration _) fun configuration => ?_
  exact Still.bind (still_addVariables _) fun _ => still_pure _

end Session

/-! ## What a call comes to -/

def exitOf : Except Ending Unit → Nat × Option Fault
  | .ok () => (0, none)
  | .error (.exit code) => (code, none)
  | .error (.fault f) => (1, some f)

theorem run_of_ends {words : List Text} {s : Surroundings} {last : State}
    {r : Except Ending Unit} (h : Session.Ends (Session.program words) { s with } r last) :
    (run words s).1.printed = last.printed
      ∧ ((run words s).1.exit, (run words s).1.fault) = exitOf r
      ∧ (run words s).2 = last.toSurroundings := by
  rw [run, show (Session.program words).run { s with } = _ from h]
  rcases r with (code | f) | _ <;> exact ⟨rfl, rfl, rfl⟩

end TaskContract.CommandLine
