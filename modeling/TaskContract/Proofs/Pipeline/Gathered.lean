import TaskContract.Proofs.Pipeline.Courses
import TaskContract.Proofs.Pipeline.Serialization

/-!
# What becomes of jobs that are gathered

The jobs of a gathering are writers with locks: every move is a step of these or none. So no two jobs
write the same files at the same time, and what one of them does after its reply comes before or
after all that the other does. `Gathered` collects what is done when jobs have been gathered, with or
without a failure, and `does_gather` is the rule for it.
-/

namespace TaskContract

variable {σ α : Type}

/-! ## Jobs as writers -/

/-- What the job stores is for the artifact. What it tells is told apart by whether something has
begun. -/
structure Job.IsFor (job : Job α) (artifact : Text) : Prop where
  steady : job.IsSteady
  opening : ∀ e, job.opening = some e → e.begun?.isSome = true
  artifact : ∀ reply f, job.conclusion reply = .filing f → f.artifact = artifact
  closing : ∀ reply f, job.conclusion reply = .filing f → f.closing.begun? = none

/-- Where the writer of a job stands. It does not matter where that of a job stands that has not
begun or that is over. -/
inductive IsWriterOf : Option (Phase α) → WriterState → Prop where
  | queued (x : WriterState) : IsWriterOf none x
  | asking (job : Job α) (reply : Chat.Reply) : IsWriterOf (some (.asking job reply)) .idle
  | waiting (f : Filing α) (k : Nat) : IsWriterOf (some (.waiting f k)) (.waiting k)
  | writing (f : Filing α) (k : Nat) (left : Except StoreError (List FileOperation)) :
      IsWriterOf (some (.writing f k left)) (.writing k)
  | abandoned (k : Nat) (left : List FileOperation) :
      IsWriterOf (some (.abandoned k left)) (.writing k)
  | ended (a : α) (x : WriterState) : IsWriterOf (some (.ended a)) x
  | gone (x : WriterState) : IsWriterOf (some .gone) x

/-- Can a job be in the phase, by whether the jobs have been cancelled? -/
def Phase.fits : Bool → Phase α → Bool
  | true, .asking _ _ | true, .waiting _ _ | true, .writing _ _ _ => false
  | false, .abandoned _ _ => false
  | _, _ => true

structure Follows (g : Gathering σ α) (w : Writers Nat) : Prop where
  locks : w.locks = g.locks
  cancelled : w.cancelled = g.cancelled
  held : g.cancelled = false → w.held = g.held
  state : ∀ i, IsWriterOf g.begun[i]? (w.state i)
  queued : g.cancelled = false → ∀ i, g.begun.length ≤ i → w.state i = .idle
  fits : ∀ p ∈ g.begun, p.fits g.cancelled = true

theorem isWriterOf_set {phases : List (Phase α)} {states : Nat → WriterState} {i : Nat}
    {p : Phase α} {x : WriterState} (h : ∀ j, IsWriterOf phases[j]? (states j))
    (hi : i < phases.length) (hx : IsWriterOf (some p) x) (j : Nat) :
    IsWriterOf (phases.set i p)[j]? (Function.update states i x j) := by
  by_cases hij : j = i
  · subst hij
    rw [List.getElem?_set_self hi, Function.update_self]
    exact hx
  · rw [List.getElem?_set_ne (Ne.symm hij), Function.update_of_ne hij]
    exact h j

/-- A turn of a job is a step of its writer, or none. -/
theorem Turn.writer {c : Conditions σ} {artifact : Nat → Text} {s s' : Guards} {p p' : Phase α}
    {acts : List Act} {t : Option Trouble} {w : Writers Nat} {i : Nat}
    (h : Turn c s p acts p' s' t) (hlocks : w.locks = s.locks)
    (hheld : w.cancelled = false → w.held = s.held) (hstate : IsWriterOf (some p) (w.state i))
    (hfits : p.fits w.cancelled = true)
    (hartifact : ∀ job reply f, p = .asking job reply → job.conclusion reply = .filing f →
      f.artifact = artifact i) :
    ∃ w' x, (w' = w ∨ Writers.Step artifact w w') ∧ w'.locks = s'.locks
      ∧ w'.cancelled = w.cancelled ∧ (w.cancelled = false → w'.held = s'.held)
      ∧ w'.state = Function.update w.state i x ∧ IsWriterOf (some p') x
      ∧ p'.fits w.cancelled = true := by
  have hsame : ∀ {x}, w.state i = x → w.state = Function.update w.state i x := by
    rintro _ rfl
    exact (Function.update_eq_self i w.state).symm
  have hset : ∀ k held, w.held = s.held → Function.update w.held k held = (s.set k held).held := by
    intro k held hw
    rw [hw]
    exact funext fun j => Function.update_apply ..
  generalize hx : w.state i = x at hstate
  generalize hw : w.cancelled = cancelled at hheld hfits ⊢
  cases h with
  | fails _ =>
      cases hstate
      refine ⟨w, _, Or.inl rfl, hlocks, hw, hheld, hsame hx, .gone _, ?_⟩
      cases cancelled <;> rfl
  | ends _ =>
      cases hstate
      refine ⟨w, _, Or.inl rfl, hlocks, hw, hheld, hsame hx, .ended _ _, ?_⟩
      cases cancelled <;> rfl
  | @waits job reply f conclusion =>
      cases hstate
      cases cancelled with
      | true => cases hfits
      | false =>
          have hname : f.artifact = artifact i := hartifact job reply f rfl conclusion
          refine ⟨w.ask artifact i, _, Or.inr (.ask i hw hx), ?_, hw, hheld, rfl, ?_, rfl⟩
          · rw [hname, ← hlocks]
            rfl
          · rw [hname, ← hlocks]
            exact .waiting f _
  | @enters f k free =>
      cases hstate
      cases cancelled with
      | true => cases hfits
      | false =>
          have hfree : w.held k = false := by
            rw [hheld rfl]
            exact free
          exact ⟨w.enter i k, _, Or.inr (.enter i k hw hx hfree), hlocks, hw,
            fun h => hset k true (hheld h), rfl, .writing f k f.work, rfl⟩
  | works | breaks _ =>
      cases hstate
      cases cancelled with
      | true => cases hfits
      | false => exact ⟨w, _, Or.inl rfl, hlocks, hw, hheld, hsame hx, .writing _ _ _, rfl⟩
  | @closes f k _ =>
      cases hstate
      refine ⟨w.leave i k, _, Or.inr (.leave i k hx), hlocks, hw, fun h => hset k false (hheld h),
        rfl, .ended _ _, ?_⟩
      cases cancelled <;> rfl
  | @refused f k _ _ | @gives f k _ =>
      cases hstate
      refine ⟨w.leave i k, _, Or.inr (.leave i k hx), hlocks, hw, fun h => hset k false (hheld h),
        rfl, .gone _, ?_⟩
      cases cancelled <;> rfl
  | worksOn | breaksOff _ =>
      cases hstate
      cases cancelled with
      | false => cases hfits
      | true => exact ⟨w, _, Or.inl rfl, hlocks, hw, hheld, hsame hx, .abandoned _ _, rfl⟩
  | @vanishes k =>
      cases hstate
      cases cancelled with
      | false => cases hfits
      | true => exact ⟨w.leave i k, _, Or.inr (.leave i k hx), hlocks, hw, nofun, rfl, .gone _, rfl⟩

namespace Gathering

variable {c : Conditions σ} {artifact : Nat → Text} {g g' : Gathering σ α}
  {entries : List (Nat × Act)} {w : Writers Nat}

/-- What is next in the queue begins as one that has not asked for a lock. -/
theorem follows_begins (hw : Follows g w) (hrunning : g.cancelled = false)
    (queue : List (Job α)) {p : Phase α} (hp : p.fits false = true)
    (hidle : IsWriterOf (some p) .idle) (t : Option Trouble) (world : World σ) :
    Follows (g.begins queue p t world) w := by
  have hlength : (g.begun ++ [p]).length = g.begun.length + 1 := List.length_append
  refine ⟨hw.locks, hw.cancelled, hw.held, ?state, ?queued, ?fits⟩
  case state =>
    intro i
    show IsWriterOf (g.begun ++ [p])[i]? (w.state i)
    rcases Nat.lt_trichotomy i g.begun.length with hlt | rfl | hgt
    · rw [List.getElem?_append_left hlt]
      exact hw.state i
    · rw [List.getElem?_concat_length, hw.queued hrunning _ (Nat.le_refl _)]
      exact hidle
    · rw [List.getElem?_eq_none_iff.mpr (by rw [hlength]; exact hgt)]
      exact .queued _
  case queued =>
    intro _ i hi
    have hi' : (g.begun ++ [p]).length ≤ i := hi
    rw [hlength] at hi'
    exact hw.queued hrunning i (Nat.le_of_lt hi')
  case fits =>
    intro q hq
    show q.fits g.cancelled = true
    rcases List.mem_append.mp hq with hq | hq
    · exact hw.fits q hq
    · rw [List.mem_singleton.mp hq, hrunning]
      exact hp

theorem follows_after (hw : Follows g w) {i : Nat} {p p' : Phase α} {acts : List Act} {s : Guards}
    {t : Option Trouble} (found : g.begun[i]? = some p) (turn : Turn c g.guards p acts p' s t)
    (hartifact : ∀ job reply f, p = .asking job reply → job.conclusion reply = .filing f →
      f.artifact = artifact i) (world : World σ) :
    ∃ w', (w' = w ∨ Writers.Step artifact w w') ∧ Follows (g.after i p' s t world) w' := by
  have hi : i < g.begun.length := (List.getElem?_eq_some_iff.mp found).1
  have hstate := hw.state i
  rw [found] at hstate
  obtain ⟨w', x, hstep, hlocks, hcancelled, hheld, hstates, hx, hfits⟩ :=
    turn.writer (w := w) hw.locks (fun h => hw.held (hw.cancelled ▸ h)) hstate
      (hw.cancelled ▸ hw.fits p (List.mem_of_getElem? found)) hartifact
  refine ⟨w', hstep, hlocks, hcancelled.trans hw.cancelled,
    fun h => hheld (hw.cancelled.trans h), ?state, ?queued, ?fits⟩
  case state =>
    rw [hstates]
    exact isWriterOf_set hw.state hi hx
  case queued =>
    intro hrunning j hj
    have hj' : (g.begun.set i p').length ≤ j := hj
    rw [List.length_set] at hj'
    rw [hstates, Function.update_of_ne (Nat.ne_of_gt (Nat.lt_of_lt_of_le hi hj'))]
    exact hw.queued hrunning j hj'
  case fits =>
    intro q hq
    rcases List.mem_or_eq_of_mem_set hq with hq | rfl
    · exact hw.fits q hq
    · exact hw.cancelled ▸ hfits

theorem follows_cancel (hw : Follows g w) (world : World σ) :
    Follows { g.cancel with world } w.cancel := by
  refine ⟨hw.locks, rfl, nofun, ?state, nofun, ?fits⟩
  case state =>
    intro i
    have hstate := hw.state i
    show IsWriterOf (g.begun.map Phase.cancelled)[i]? (Writers.afterCancel (w.state i))
    rw [List.getElem?_map]
    generalize hfound : g.begun[i]? = found at hstate
    generalize w.state i = x at hstate
    cases hstate with
    | queued _ => exact .queued _
    | asking _ _ | waiting _ _ | gone _ => exact .gone _
    | writing f k left =>
        cases left with
        | error e => exact .gone _
        | ok left => exact .abandoned k left
    | abandoned k left => exact .abandoned k left
    | ended a _ => exact .ended a _
  case fits =>
    intro q hq
    obtain ⟨p, hp, rfl⟩ := List.mem_map.mp hq
    show p.cancelled.fits true = true
    cases p with
    | writing f k left => cases left <;> rfl
    | _ => rfl

/-- A move of the gathering is a step of the writers, or none. -/
theorem Goes.follows (h : Goes c g entries g') (hw : Follows g w)
    (hqueue : g.cancelled = true → g.queue = [])
    (hartifact : ∀ i job reply f, g.begun[i]? = some (.asking job reply) →
      job.conclusion reply = .filing f → f.artifact = artifact i) :
    ∃ w', (w' = w ∨ Writers.Step artifact w w') ∧ Follows g' w' := by
  have hrunning : ∀ {job queue}, g.queue = job :: queue → g.cancelled = false := by
    intro job queue hnext
    cases hcancelled : g.cancelled with
    | false => rfl
    | true =>
        rw [hqueue hcancelled] at hnext
        cases hnext
  cases h with
  | asks next _ _ _ _ =>
      exact ⟨w, Or.inl rfl, follows_begins hw (hrunning next) _ rfl (.asking _ _) _ _⟩
  | refused next _ _ _ =>
      exact ⟨w, Or.inl rfl, follows_begins hw (hrunning next) _ rfl (.gone _) _ _⟩
  | turns found turn _ _ _ =>
      refine follows_after hw found turn ?_ _
      rintro job reply f rfl
      exact hartifact _ job reply f found
  | cancels _ running _ =>
      exact ⟨w.cancel, Or.inr (.cancel (hw.cancelled.trans running)), follows_cancel hw _⟩

end Gathering

/-! ## The order of what is stored -/

/-- Does the act follow from a reply? -/
def Act.isConcluding : Act → Bool
  | .told e => e.begun?.isNone
  | .asked _ _ => false
  | .filed _ _ => true

theorem Act.isConcluding_told {e : Event} (h : e.begun?.isSome = true) :
    (Act.told e).isConcluding = false := by
  rw [isConcluding, Option.isNone_eq_false_iff]
  exact h

/-- What a job does before its reply follows from none. -/
theorem Job.isConcluding_asked {job : Job α}
    (hopening : ∀ e, job.opening = some e → e.begun?.isSome = true) (reply : Chat.Reply) :
    ∀ act ∈ job.asked reply, act.isConcluding = false := by
  intro act hact
  rcases List.mem_append.mp hact with hact | hact
  · obtain ⟨e, he, rfl⟩ := Option.map_eq_some_iff.mp (Option.mem_toList.mp hact)
    exact Act.isConcluding_told (hopening e he)
  · rw [List.mem_singleton.mp hact]
    rfl

def Phase.isWriting : Phase α → Bool
  | .writing _ _ _ | .abandoned _ _ => true
  | _ => false

def Gathering.IsWriting (g : Gathering σ α) (i : Nat) : Prop :=
  ∃ p, g.begun[i]? = some p ∧ p.isWriting = true

/-- What follows from the reply to a job comes before all that follows from the reply to another. -/
def Precedes (history : List (Nat × Act)) (i j : Nat) : Prop :=
  history.Pairwise fun x y => x.1 = j → x.2.isConcluding = true → y.1 = i →
    y.2.isConcluding = false

theorem precedes_of_none {history : List (Nat × Act)} {j : Nat}
    (h : ∀ act ∈ actsOf j history, act.isConcluding = false) (i : Nat) : Precedes history i j := by
  refine List.pairwise_of_forall_mem_list fun x hx y _ hj hact => ?_
  have hmem : x.2 ∈ actsOf j history :=
    List.mem_map_of_mem (List.mem_filter.mpr ⟨hx, decide_eq_true hj⟩)
  rw [h _ hmem] at hact
  cases hact

/-- More acts of a job keep the order if it is not the first of two. -/
theorem Precedes.append {history : List (Nat × Act)} {i j k : Nat} {acts : List Act}
    (h : Precedes history i j) (hacts : (∀ act ∈ acts, act.isConcluding = false) ∨ k ≠ i) :
    Precedes (history ++ acts.map (k, ·)) i j := by
  have hlater : ∀ y ∈ acts.map (k, ·), y.1 = i → y.2.isConcluding = false := by
    intro y hy hi
    obtain ⟨act, hact, rfl⟩ := List.mem_map.mp hy
    rcases hacts with hacts | hk
    · exact hacts act hact
    · exact absurd hi hk
  refine List.pairwise_append.mpr ⟨h, ?_, fun x _ y hy _ _ => hlater y hy⟩
  exact List.pairwise_of_forall_mem_list fun x _ y hy _ _ => hlater y hy

theorem Turn.concluding {c : Conditions σ} {s s' : Guards} {p p' : Phase α} {acts : List Act}
    {t : Option Trouble} (h : Turn c s p acts p' s' t) :
    (acts = [] ∨ p.isWriting = true) ∧ (p'.isWriting = true → p.isWriting = true
      ∨ acts = [] ∧ ∃ f k, p = .waiting f k) := by
  cases h with
  | fails _ | ends _ | waits _ => exact ⟨Or.inl rfl, nofun⟩
  | enters _ => exact ⟨Or.inl rfl, fun _ => Or.inr ⟨rfl, _, _, rfl⟩⟩
  | _ => exact ⟨Or.inr rfl, fun _ => Or.inl rfl⟩

namespace Gathering

variable {c : Conditions σ} {g g' : Gathering σ α} {entries : List (Nat × Act)}

/-- A move is one of a single job, and only a job that writes does what follows from its reply. -/
theorem Goes.concluding (h : Goes c g entries g')
    (hopening : ∀ job ∈ g.queue, ∀ e, job.opening = some e → e.begun?.isSome = true) :
    ∃ (i : Nat) (acts : List Act), entries = acts.map (i, ·)
      ∧ ((∀ act ∈ acts, act.isConcluding = false) ∨ g.IsWriting i)
      ∧ ∀ j, g'.IsWriting j → g.IsWriting j
        ∨ acts = [] ∧ ∃ f k, g.begun[j]? = some (.waiting f k) := by
  have hbegins : ∀ {queue : List (Job α)} {p : Phase α} {t world} (_ : p.isWriting = false) (j),
      (g.begins queue p t world).IsWriting j → g.IsWriting j := by
    rintro queue p t world hp j ⟨q, hq, hwriting⟩
    have hq' : (g.begun ++ [p])[j]? = some q := hq
    rcases Nat.lt_or_ge j g.begun.length with hlt | hge
    · rw [List.getElem?_append_left hlt] at hq'
      exact ⟨q, hq', hwriting⟩
    · rw [List.getElem?_append_right hge] at hq'
      rw [List.mem_singleton.mp (List.mem_of_getElem? hq'), hp] at hwriting
      cases hwriting
  cases h with
  | @asks job queue reply world next _ _ _ _ =>
      exact ⟨_, _, rfl,
        Or.inl (Job.isConcluding_asked (hopening job (next ▸ List.mem_cons_self)) reply),
        fun j hj => Or.inl (hbegins rfl j hj)⟩
  | @refused job queue e m world next opening _ _ =>
      refine ⟨_, [.told e], rfl, Or.inl ?_, fun j hj => Or.inl (hbegins rfl j hj)⟩
      intro act hact
      rw [List.mem_singleton.mp hact]
      exact Act.isConcluding_told (hopening job (next ▸ List.mem_cons_self) e opening)
  | @turns i p p' acts s t world found turn _ _ _ =>
      obtain ⟨hacts, hwriting⟩ := turn.concluding
      refine ⟨i, acts, rfl, ?_, ?_⟩
      · rcases hacts with rfl | hp
        · exact Or.inl fun act hact => absurd hact List.not_mem_nil
        · exact Or.inr ⟨p, found, hp⟩
      · rintro j ⟨q, hq, hq'⟩
        have hset : (g.begun.set i p')[j]? = some q := hq
        by_cases hij : i = j
        · subst hij
          rw [List.getElem?_set_self (List.getElem?_eq_some_iff.mp found).1] at hset
          obtain rfl := Option.some.inj hset
          rcases hwriting hq' with hp | ⟨hnone, f, k, rfl⟩
          · exact Or.inl ⟨p, found, hp⟩
          · exact Or.inr ⟨hnone, f, k, found⟩
        · rw [List.getElem?_set_ne hij] at hset
          exact Or.inl ⟨q, hset, hq'⟩
  | cancels _ _ _ =>
      refine ⟨0, [], rfl, Or.inl fun act hact => absurd hact List.not_mem_nil, ?_⟩
      rintro j ⟨q, hq, hq'⟩
      have hmap : (g.begun.map Phase.cancelled)[j]? = some q := hq
      rw [List.getElem?_map, Option.map_eq_some_iff] at hmap
      obtain ⟨p, hp, rfl⟩ := hmap
      refine Or.inl ⟨p, hp, ?_⟩
      cases p with
      | writing f k left => rfl
      | abandoned k left => rfl
      | _ => cases hq'

end Gathering

structure Ordered (artifact : Nat → Text) (g : Gathering σ α) (history : List (Nat × Act)) :
    Prop where
  writers : ∃ w, Writers.Reachable artifact w ∧ Follows g w
  last : ∀ i j, i ≠ j → (Path.ofText (artifact i)).stem = (Path.ofText (artifact j)).stem →
    g.IsWriting i → Precedes history j i
  either : ∀ i j, i ≠ j → (Path.ofText (artifact i)).stem = (Path.ofText (artifact j)).stem →
    Precedes history i j ∨ Precedes history j i

/-- **Jobs that store the same files do not write at the same time.** -/
theorem Ordered.eq_of_isWriting {artifact : Nat → Text} {g : Gathering σ α}
    {history : List (Nat × Act)} (h : Ordered artifact g history) {i j : Nat}
    (hi : g.IsWriting i) (hj : g.IsWriting j)
    (hbase : (Path.ofText (artifact i)).stem = (Path.ofText (artifact j)).stem) : i = j := by
  obtain ⟨w, hreachable, hw⟩ := h.writers
  have hwriting : ∀ {i}, g.IsWriting i → w.IsWriting i := by
    rintro i ⟨p, hp, hwriting⟩
    have hstate := hw.state i
    rw [hp] at hstate
    generalize hx : w.state i = x at hstate
    cases hstate with
    | writing f k _ | abandoned k _ => exact ⟨k, hx⟩
    | _ => cases hwriting
  exact hreachable.isOrderly.eq_of_isWriting (hwriting hi) (hwriting hj) hbase

def AreFor (jobs : List (Job α)) (artifact : Nat → Text) : Prop :=
  ∀ (i : Nat) (job : Job α), jobs[i]? = some job → job.IsFor (artifact i)

section

variable {c : Conditions σ} {jobs : List (Job α)} {artifact : Nat → Text} {g g' : Gathering σ α}
  {history entries : List (Nat × Act)} {replies : List Chat.Reply}

theorem Ordered.initial (artifact : Nat → Text) (jobs : List (Job α)) (w : World σ) :
    Ordered artifact { queue := jobs, world := w } [] where
  writers := by
    refine ⟨.initial, .initial, rfl, rfl, fun _ => rfl, fun i => .queued _, fun _ _ _ => rfl, ?_⟩
    intro p hp
    cases hp
  last := by
    rintro i j _ _ ⟨p, hp, _⟩
    cases hp
  either i j _ _ := Or.inl List.Pairwise.nil

theorem Ordered.goes (h : Ordered artifact g history) (hjobs : AreFor jobs artifact)
    (hkept : Kept c jobs g history replies) (hgoes : g.Goes c entries g') :
    Ordered artifact g' (history ++ entries) := by
  obtain ⟨k, acts, rfl, hacts, hwriting⟩ := hgoes.concluding fun job hjob => by
    obtain ⟨i, hi⟩ := List.mem_iff_getElem?.mp (hkept.mem_queue hjob)
    exact (hjobs i job hi).opening
  refine ⟨?writers, ?last, ?either⟩
  case writers =>
    obtain ⟨w, hreachable, hw⟩ := h.writers
    have hartifact : ∀ i job reply f, g.begun[i]? = some (.asking job reply) →
        job.conclusion reply = .filing f → f.artifact = artifact i := by
      intro i job reply f hfound hconclusion
      obtain ⟨job', reply', hjob, -, hstage⟩ := hkept.stands i _ hfound
      generalize actsOf i history = done at hstage
      cases hstage
      exact (hjobs i job hjob).artifact reply f hconclusion
    obtain ⟨w', hstep, hw'⟩ := hgoes.follows hw hkept.queue_of_cancelled hartifact
    rcases hstep with rfl | hstep
    · exact ⟨w', hreachable, hw'⟩
    · exact ⟨w', hreachable.step hstep, hw'⟩
  case last =>
    intro i j hij hbase hi
    rcases hwriting i hi with hold | ⟨rfl, f, m, hfound⟩
    · refine (h.last i j hij hbase hold).append (hacts.imp_right ?_)
      rintro hk rfl
      exact hij (h.eq_of_isWriting hold hk hbase)
    · obtain ⟨job, reply, hjob, -, hstage⟩ := hkept.stands i _ hfound
      have hquiet : ∀ act ∈ actsOf i history, act.isConcluding = false := by
        generalize actsOf i history = done at hstage ⊢
        cases hstage with
        | waiting _ _ => exact Job.isConcluding_asked (hjobs i job hjob).opening reply
      exact (precedes_of_none hquiet j).append (Or.inl fun act hact => absurd hact List.not_mem_nil)
  case either =>
    intro i j hij hbase
    rcases hacts with hquiet | hk
    · exact (h.either i j hij hbase).imp (.append · (Or.inl hquiet)) (.append · (Or.inl hquiet))
    · by_cases hki : k = i
      · subst hki
        exact Or.inr ((h.last k j hij hbase hk).append (Or.inr hij))
      · by_cases hkj : k = j
        · subst hkj
          exact Or.inl ((h.last k i hij.symm hbase.symm hk).append (Or.inr hij.symm))
        · exact (h.either i j hij hbase).imp (.append · (Or.inr hki)) (.append · (Or.inr hkj))

end

/-! ## Jobs that have been gathered -/

section

variable {c : Conditions σ} {jobs : List (Job α)} {artifact : Nat → Text} {g : Gathering σ α}
  {w : World σ} {history : List (Nat × Act)} {replies : List Chat.Reply}

theorem AreFor.closing (h : AreFor jobs artifact) :
    ∀ job ∈ jobs, ∀ reply f, job.conclusion reply = .filing f → f.closing.begun? = none := by
  intro job hjob
  obtain ⟨i, hi⟩ := List.mem_iff_getElem?.mp hjob
  exact (h i job hi).closing

theorem Gathering.Reaches.ordered (hjobs : AreFor jobs artifact)
    (h : Reaches c { queue := jobs, world := w } history g) :
    ∃ replies, Kept c jobs g history replies ∧ Ordered artifact g history := by
  induction h with
  | refl => exact ⟨[], .initial c jobs w, .initial artifact jobs w⟩
  | move _ goes ih =>
      obtain ⟨replies, hkept, hordered⟩ := ih
      obtain ⟨more, hkept'⟩ := hkept.goes hjobs.closing goes
      exact ⟨replies ++ more, hkept', hordered.goes hjobs hkept goes⟩

def Gathering.outcome (g : Gathering σ α) : Except Trouble (List α) :=
  match g.failure with
  | some t => .error t
  | none => .ok (g.begun.filterMap Phase.result?)

theorem Gathering.outcome_of_some {t : Trouble} (h : g.failure = some t) : g.outcome = .error t := by
  rw [outcome, h]

theorem Gathering.outcome_of_none (h : g.failure = none) :
    g.outcome = .ok (g.begun.filterMap Phase.result?) := by
  rw [outcome, h]

structure AllDone (c : Conditions σ) (jobs : List (Job α)) (history : List (Nat × Act))
    (replies : List Chat.Reply) (vs : List α) : Prop where
  length : replies.length = jobs.length
  questions : (history.map Prod.snd).filterMap Act.question? = questionsOf jobs replies
  course : ∀ i job reply, jobs[i]? = some job → replies[i]? = some reply →
    actsOf i history = job.course reply
  results : List.Forall₂ (fun x a => Completes c x.1 x.2 a) (jobs.zip replies) vs

theorem AllDone.completes {vs : List α} (h : AllDone c jobs history replies vs) {i : Nat}
    {job : Job α} {reply : Chat.Reply} (hjob : jobs[i]? = some job)
    (hreply : replies[i]? = some reply) : ∃ a ∈ vs, Completes c job reply a := by
  have hpair : (jobs.zip replies)[i]? = some (job, reply) :=
    List.getElem?_zip_eq_some.mpr ⟨hjob, hreply⟩
  obtain ⟨hi, hget⟩ := List.getElem?_eq_some_iff.mp hpair
  have hi' : i < vs.length := by
    rw [← h.results.length_eq]
    exact hi
  have hcompletes := h.results.get hi hi'
  rw [List.get_eq_getElem, hget] at hcompletes
  exact ⟨_, List.getElem_mem hi', hcompletes⟩

/-- What has been done when jobs have been gathered, and how it has ended. -/
structure Gathered (c : Conditions σ) (jobs : List (Job α)) (artifact : Nat → Text)
    (history : List (Nat × Act)) (replies : List Chat.Reply) (r : Except Trouble (List α)) :
    Prop where
  count : replies.length ≤ jobs.length
  known : ∀ x ∈ history, x.1 < replies.length
  opened : (history.map Prod.snd).filterMap Act.begun?
    = (jobs.take replies.length).filterMap Job.begun?
  part : ∀ i job reply, jobs[i]? = some job → replies[i]? = some reply →
    IsPart job reply (actsOf i history)
  asked : (∀ job ∈ jobs, job.Accepted c) →
    (history.map Prod.snd).filterMap Act.question? = questionsOf jobs replies
  either : ∀ i j, i ≠ j → (Path.ofText (artifact i)).stem = (Path.ofText (artifact j)).stem →
    Precedes history i j ∨ Precedes history j i
  failed : ∀ t, r = .error t → FailsBy c jobs history replies t
  done : ∀ vs, r = .ok vs → AllDone c jobs history replies vs

theorem Kept.length_le (h : Kept c jobs g history replies) : g.begun.length ≤ jobs.length := by
  by_contra hlt
  rw [Nat.not_le] at hlt
  obtain ⟨job, _, hjob, -⟩ := h.stands _ _ (List.getElem?_eq_getElem hlt)
  rw [List.getElem?_eq_none_iff.mpr (Nat.le_refl _)] at hjob
  cases hjob

theorem Kept.stands_of (h : Kept c jobs g history replies) {i : Nat} {job : Job α}
    {reply : Chat.Reply} (hjob : jobs[i]? = some job) (hreply : replies[i]? = some reply) :
    ∃ p, g.begun[i]? = some p ∧ Stands c job reply p (actsOf i history) := by
  have hi : i < g.begun.length := by
    rw [← h.count]
    exact (List.getElem?_eq_some_iff.mp hreply).1
  obtain ⟨job', reply', hjob', hreply', hstage⟩ := h.stands i _ (List.getElem?_eq_getElem hi)
  obtain rfl := Option.some.inj (hjob.symm.trans hjob')
  obtain rfl := Option.some.inj (hreply.symm.trans hreply')
  exact ⟨_, List.getElem?_eq_getElem hi, hstage⟩

theorem forall₂_results {phases : List (Phase α)} (h : ∀ p ∈ phases, ∃ a, p = .ended a) :
    List.Forall₂ (fun p a => p = .ended a) phases (phases.filterMap Phase.result?) := by
  induction phases with
  | nil => exact .nil
  | cons p rest ih =>
      rw [List.forall_mem_cons] at h
      obtain ⟨⟨a, rfl⟩, hrest⟩ := h
      exact .cons rfl (ih hrest)

theorem Kept.allDone (h : Kept c jobs g history replies) (hsettled : g.IsSettled)
    (hnone : g.failure = none) :
    AllDone c jobs history replies (g.begun.filterMap Phase.result?) := by
  obtain ⟨hrunning, hsound⟩ := h.sound hnone
  have hended : ∀ p ∈ g.begun, ∃ a, p = .ended a := by
    intro p hp
    have hp' := hsound p hp
    have hover := hsettled.begun p hp
    cases p with
    | ended a => exact ⟨a, rfl⟩
    | gone => cases hp'
    | _ => cases hover
  have hlength : g.begun.length = jobs.length := by
    refine Nat.le_antisymm h.length_le (List.drop_eq_nil_iff.mp ?_)
    have hqueue := h.queue
    rw [hrunning, if_neg Bool.false_ne_true, hsettled.queue] at hqueue
    exact hqueue.symm
  have hdone : ∀ {i : Nat} {job : Job α} {reply : Chat.Reply}, jobs[i]? = some job →
      replies[i]? = some reply → ∃ a, g.begun[i]? = some (.ended a)
        ∧ actsOf i history = job.course reply ∧ Completes c job reply a := by
    intro i job reply hjob hreply
    obtain ⟨p, hp, hstage⟩ := h.stands_of hjob hreply
    obtain ⟨a, rfl⟩ := hended p (List.mem_of_getElem? hp)
    generalize actsOf i history = acts at hstage
    cases hstage with
    | ended completes => exact ⟨a, hp, rfl, completes⟩
  have hresults := forall₂_results hended
  refine ⟨h.count.trans hlength, h.asked ?accepted, ?course, ?results⟩
  case accepted =>
    intro job hjob
    obtain ⟨i, hi⟩ := List.getElem?_of_mem hjob
    have hreply : i < replies.length := by
      rw [h.count, hlength]
      exact (List.getElem?_eq_some_iff.mp hi).1
    obtain ⟨_, -, -, hcompletes⟩ := hdone hi (List.getElem?_eq_getElem hreply)
    exact hcompletes.accepted
  case course =>
    intro i job reply hjob hreply
    obtain ⟨_, -, hacts, -⟩ := hdone hjob hreply
    exact hacts
  case results =>
    refine List.forall₂_iff_get.mpr ⟨?_, fun i hi hi' => ?_⟩
    · rw [← hresults.length_eq, List.length_zip, h.count, hlength, Nat.min_self]
    · have hpair := List.getElem?_zip_eq_some.mp (List.getElem?_eq_getElem hi)
      obtain ⟨a, ha, -, hcompletes⟩ := hdone hpair.1 hpair.2
      obtain ⟨hlt, hget⟩ := List.getElem?_eq_some_iff.mp ha
      have hended' := hresults.get hlt hi'
      obtain rfl : a = _ := Phase.ended.inj (hget.symm.trans hended')
      exact hcompletes

theorem Kept.gathered (h : Kept c jobs g history replies) (hordered : Ordered artifact g history)
    (hsettled : g.IsSettled) :
    Gathered c jobs artifact history replies g.outcome where
  count := h.count.trans_le h.length_le
  known := by
    rw [h.count]
    exact h.known
  opened := by
    rw [h.count]
    exact h.opened
  part := by
    intro i job reply hjob hreply
    obtain ⟨_, -, hstage⟩ := h.stands_of hjob hreply
    exact hstage.isPart
  asked := h.asked
  either := hordered.either
  failed := by
    intro t ht
    cases hfailure : g.failure with
    | none =>
        rw [Gathering.outcome_of_none hfailure] at ht
        cases ht
    | some t' =>
        rw [Gathering.outcome_of_some hfailure] at ht
        obtain rfl := Except.error.inj ht
        exact h.failed _ hfailure
  done := by
    intro vs hvs
    cases hfailure : g.failure with
    | none =>
        rw [Gathering.outcome_of_none hfailure] at hvs
        obtain rfl := Except.ok.inj hvs
        exact h.allDone hsettled hfailure
    | some t' =>
        rw [Gathering.outcome_of_some hfailure] at hvs
        cases hvs

theorem Gathered.exists_job {r : Except Trouble (List α)}
    (h : Gathered c jobs artifact history replies r) {x : Nat × Act} (hx : x ∈ history) :
    ∃ job reply, jobs[x.1]? = some job ∧ replies[x.1]? = some reply ∧ x.2 ∈ actsOf x.1 history := by
  have hlt := h.known x hx
  exact ⟨_, _, List.getElem?_eq_getElem (Nat.lt_of_lt_of_le hlt h.count),
    List.getElem?_eq_getElem hlt, mem_actsOf hx⟩

end

theorem Run.run_gather (c : Conditions σ) (jobs : List (Job α)) (w : World σ) :
    (gather c jobs).run w
      = ((Gathering.run c (8 * jobs.length + 1) { queue := jobs, world := w }).outcome,
        (Gathering.run c (8 * jobs.length + 1) { queue := jobs, world := w }).world) := by
  let g : Gathering σ α := Gathering.run c (8 * jobs.length + 1) { queue := jobs, world := w }
  show (match g.failure with
    | some t => (.error t, g.world)
    | none => (.ok (g.begun.filterMap Phase.result?), g.world)) = (g.outcome, g.world)
  cases hfailure : g.failure with
  | none => rw [g.outcome_of_none hfailure]
  | some t => rw [g.outcome_of_some hfailure]

/-- A gathering moves until nothing is open, and so it does again where the same can be done. -/
theorem Run.gather_reaches {c : Conditions σ} {jobs : List (Job α)} {artifact : Nat → Text}
    (h : AreFor jobs artifact) (w : World σ) : ∃ history g,
      Gathering.Reaches c { queue := jobs, world := w } history g ∧ g.IsSettled
        ∧ (gather c jobs).run w = (g.outcome, g.world)
        ∧ IsRedone c (gather c jobs) w (history.map Prod.snd) := by
  have hsteady : ({ queue := jobs, world := w } : Gathering σ α).IsSteady := by
    refine ⟨fun job hjob => ?_, fun job reply hmem => absurd hmem List.not_mem_nil⟩
    obtain ⟨i, hi⟩ := List.mem_iff_getElem?.mp hjob
    exact (h i job hi).steady
  have hguarded : ({ queue := jobs, world := w } : Gathering σ α).IsGuarded := by
    intro k hk
    cases hk
  -- the fuel is what the gathering weighs when it begins
  obtain ⟨history, hreaches, hsettled, hagain⟩ := Gathering.run_reaches (c := c)
    (n := 8 * jobs.length + 1) hsteady hguarded (Nat.le_refl _)
  refine ⟨history, _, hreaches, hsettled, run_gather c jobs w, ?_⟩
  intro v stop hclient htick hperforms
  obtain ⟨v', hpasses, htick', hrun⟩ := hagain v stop hclient htick hperforms
  refine ⟨v', ?_, hpasses, ?_⟩
  · rw [run_gather, run_gather]
    show ((Gathering.run c _ { queue := jobs, world := v }).outcome, _) = _
    rw [hrun]
    rfl
  · rw [run_gather]
    exact htick'

/-- **Jobs that are gathered** are each done in part or to their ends. -/
theorem Run.does_gather {c : Conditions σ} {jobs : List (Job α)} {artifact : Nat → Text}
    (h : AreFor jobs artifact) : Does c (gather c jobs) fun r acts =>
      ∃ history replies, acts = history.map Prod.snd
        ∧ Gathered c jobs artifact history replies r := by
  intro w
  obtain ⟨history, g, hreaches, hsettled, hrun, hredone⟩ := gather_reaches (c := c) h w
  obtain ⟨replies, hkept, hordered⟩ := hreaches.ordered h
  refine ⟨history.map Prod.snd, ?_, ⟨history, replies, rfl, ?_⟩, hredone⟩
  · rw [hrun]
    exact hreaches.passes
  · rw [hrun]
    exact hkept.gathered hordered hsettled

end TaskContract
