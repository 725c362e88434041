import Mathlib.Data.Set.Basic
import Mathlib.Logic.Function.Basic
import TaskContract.Pipeline.Gather
import TaskContract.Proofs.Store.SchemaFiles

/-!
# Artifacts that share their files

The files of an artifact are named for its base name. Two artifacts have all their files in common
or none, and the locks of a run keep apart those that have them in common and no others. How the
writers of a task take and give back the locks is described step by step, in any order.
-/

namespace TaskContract

/-! ## Making the locks -/

namespace ArtifactLocks

variable {l : ArtifactLocks} {artifact base : Text} {k : Nat}

theorem lockFor_cases (l : ArtifactLocks) (artifact : Text) :
    (∃ k, l.bases[k]? = some (Path.ofText artifact).stem ∧ l.lockFor artifact = (k, l))
      ∨ (Path.ofText artifact).stem ∉ l.bases
        ∧ l.lockFor artifact
          = (l.bases.length, { bases := l.bases ++ [(Path.ofText artifact).stem] }) := by
  rw [lockFor]
  cases hfound : l.bases.idxOf? (Path.ofText artifact).stem with
  | some k =>
      left
      obtain ⟨hk, hbase, -⟩ := List.idxOf?_eq_some_iff.mp hfound
      exact ⟨k, List.getElem?_eq_some_iff.mpr ⟨hk, hbase⟩, rfl⟩
  | none =>
      right
      exact ⟨List.idxOf?_eq_none_iff.mp hfound, rfl⟩

theorem getElem?_lockFor (l : ArtifactLocks) (artifact : Text) :
    (l.lockFor artifact).2.bases[(l.lockFor artifact).1]? = some (Path.ofText artifact).stem := by
  rcases l.lockFor_cases artifact with ⟨k, hk, h⟩ | ⟨_, h⟩
  · rw [h]
    exact hk
  · rw [h]
    exact List.getElem?_concat_length

/-- A lock that has been made stays the lock of its base name. -/
theorem getElem?_lockFor_of_some (h : l.bases[k]? = some base) :
    (l.lockFor artifact).2.bases[k]? = some base := by
  rcases l.lockFor_cases artifact with ⟨_, _, hlock⟩ | ⟨_, hlock⟩
  · rw [hlock]
    exact h
  · rw [hlock]
    obtain ⟨hk, -⟩ := List.getElem?_eq_some_iff.mp h
    rw [List.getElem?_append_left hk]
    exact h

theorem nodup_lockFor (h : l.bases.Nodup) (artifact : Text) :
    (l.lockFor artifact).2.bases.Nodup := by
  rcases l.lockFor_cases artifact with ⟨_, _, hlock⟩ | ⟨hnew, hlock⟩
  · rw [hlock]
    exact h
  · rw [hlock, ← List.concat_eq_append]
    exact h.concat hnew

end ArtifactLocks

/-! ## Writers with locks -/

inductive WriterState where
  | idle
  | waiting (lock : Nat)
  | writing (lock : Nat)
  | done

/-- The lock that a writer has asked for and not yet left. -/
def WriterState.lock? : WriterState → Option Nat
  | .waiting k | .writing k => some k
  | .idle | .done => none

/-- The writers of a task with the locks that they share. When one of them fails, the others are
cancelled: whoever waits for a lock leaves, and the locks are given back at once, although a
file that is being written is written to its end. -/
structure Writers (ι : Type) where
  locks : ArtifactLocks
  held : Nat → Bool
  state : ι → WriterState
  cancelled : Bool

namespace Writers

variable {ι : Type} [DecidableEq ι] {artifact : ι → Text} {s s' : Writers ι} {i j : ι} {k : Nat}

def initial : Writers ι :=
  { locks := {}, held := fun _ => false, state := fun _ => .idle, cancelled := false }

def ask (artifact : ι → Text) (s : Writers ι) (i : ι) : Writers ι :=
  { s with
    locks := (s.locks.lockFor (artifact i)).2
    state := Function.update s.state i (.waiting (s.locks.lockFor (artifact i)).1) }

def enter (s : Writers ι) (i : ι) (k : Nat) : Writers ι :=
  { s with held := Function.update s.held k true, state := Function.update s.state i (.writing k) }

/-- A writer has written, or failed to, and gives its lock back. -/
def leave (s : Writers ι) (i : ι) (k : Nat) : Writers ι :=
  { s with held := Function.update s.held k false, state := Function.update s.state i .done }

def afterCancel : WriterState → WriterState
  | .writing k => .writing k
  | .idle | .waiting _ | .done => .done

def cancel (s : Writers ι) : Writers ι :=
  { s with held := fun _ => false, state := fun i => afterCancel (s.state i), cancelled := true }

/-- A step of one writer, or their end by a failure. Nothing is said of the order in which those who
wait are served. -/
inductive Step (artifact : ι → Text) (s : Writers ι) : Writers ι → Prop where
  | ask (i : ι) (running : s.cancelled = false) (idle : s.state i = .idle) :
      Step artifact s (s.ask artifact i)
  | enter (i : ι) (k : Nat) (running : s.cancelled = false) (waiting : s.state i = .waiting k)
      (free : s.held k = false) : Step artifact s (s.enter i k)
  | leave (i : ι) (k : Nat) (writing : s.state i = .writing k) : Step artifact s (s.leave i k)
  | cancel (running : s.cancelled = false) : Step artifact s s.cancel

/-- The states that the writers come to, whatever the order of their steps. -/
inductive Reachable (artifact : ι → Text) : Writers ι → Prop where
  | initial : Reachable artifact initial
  | step {s s' : Writers ι} (reachable : Reachable artifact s) (step : Step artifact s s') :
      Reachable artifact s'

def IsWriting (s : Writers ι) (i : ι) : Prop :=
  ∃ k, s.state i = .writing k

/-- There is one lock for each base name, a writer uses the one of its artifact, and no two writers
write under one lock. -/
structure IsOrderly (artifact : ι → Text) (s : Writers ι) : Prop where
  nodup : s.locks.bases.Nodup
  named : ∀ i k, (s.state i).lock? = some k →
    s.locks.bases[k]? = some (Path.ofText (artifact i)).stem
  held : s.cancelled = false → ∀ i k, s.state i = .writing k → s.held k = true
  unique : ∀ i j k, s.state i = .writing k → s.state j = .writing k → i = j

omit [DecidableEq ι] in
theorem isOrderly_initial : IsOrderly artifact initial where
  nodup := List.nodup_nil
  named := nofun
  held := nofun
  unique := nofun

@[simp]
theorem state_ask (artifact : ι → Text) (s : Writers ι) (i : ι) :
    (s.ask artifact i).state
      = Function.update s.state i (.waiting (s.locks.lockFor (artifact i)).1) :=
  rfl

@[simp]
theorem state_enter (s : Writers ι) (i : ι) (k : Nat) :
    (s.enter i k).state = Function.update s.state i (.writing k) :=
  rfl

@[simp]
theorem state_leave (s : Writers ι) (i : ι) (k : Nat) :
    (s.leave i k).state = Function.update s.state i .done :=
  rfl

/-- Only one writer gets to another state. -/
theorem update_cases (f : ι → WriterState) (i j : ι) (x : WriterState) :
    (j = i ∧ Function.update f i x j = x) ∨ (j ≠ i ∧ Function.update f i x j = f j) := by
  by_cases hj : j = i
  · subst hj
    exact Or.inl ⟨rfl, Function.update_self ..⟩
  · exact Or.inr ⟨hj, Function.update_of_ne hj ..⟩

theorem state_of_ask (h : (s.ask artifact i).state j = .writing k) : s.state j = .writing k := by
  rw [state_ask] at h
  rcases update_cases s.state i j (.waiting (s.locks.lockFor (artifact i)).1) with
      ⟨_, hstate⟩ | ⟨_, hstate⟩
  · rw [hstate] at h
    cases h
  · rwa [hstate] at h

theorem state_of_leave {m : Nat} (h : (s.leave i m).state j = .writing k) :
    j ≠ i ∧ s.state j = .writing k := by
  rw [state_leave] at h
  rcases update_cases s.state i j .done with ⟨_, hstate⟩ | ⟨hne, hstate⟩
  · rw [hstate] at h
    cases h
  · rw [hstate] at h
    exact ⟨hne, h⟩

theorem state_of_enter {m : Nat} (h : (s.enter i m).state j = .writing k) :
    (j = i ∧ k = m) ∨ (j ≠ i ∧ s.state j = .writing k) := by
  rw [state_enter] at h
  rcases update_cases s.state i j (.writing m) with ⟨rfl, hstate⟩ | ⟨hne, hstate⟩
  · rw [hstate] at h
    cases h
    exact Or.inl ⟨rfl, rfl⟩
  · rw [hstate] at h
    exact Or.inr ⟨hne, h⟩

omit [DecidableEq ι] in
theorem state_of_cancel (h : s.cancel.state i = .writing k) : s.state i = .writing k := by
  rw [cancel] at h
  dsimp only at h
  cases hstate : s.state i with
  | writing m =>
      rw [hstate] at h
      exact h
  | idle | waiting | done =>
      rw [hstate] at h
      cases h

theorem IsOrderly.ask (h : IsOrderly artifact s) (i : ι) :
    IsOrderly artifact (s.ask artifact i) := by
  refine ⟨ArtifactLocks.nodup_lockFor h.nodup _, ?named, ?held, ?unique⟩
  case named =>
    intro j k hk
    rw [state_ask] at hk
    rcases update_cases s.state i j (.waiting (s.locks.lockFor (artifact i)).1) with
      ⟨rfl, hstate⟩ | ⟨_, hstate⟩
    · rw [hstate] at hk
      cases hk
      exact s.locks.getElem?_lockFor _
    · rw [hstate] at hk
      exact ArtifactLocks.getElem?_lockFor_of_some (h.named j k hk)
  case held =>
    intro hrunning j k hj
    exact h.held hrunning j k (state_of_ask hj)
  case unique =>
    intro j m k hj hm
    exact h.unique j m k (state_of_ask hj) (state_of_ask hm)

theorem IsOrderly.enter (h : IsOrderly artifact s) (hrunning : s.cancelled = false)
    (hwaiting : s.state i = .waiting k) (hfree : s.held k = false) :
    IsOrderly artifact (s.enter i k) := by
  -- a lock that is free is nobody's
  have hnobody : ∀ j, s.state j ≠ .writing k := by
    intro j hj
    have hheld := h.held hrunning j k hj
    rw [hfree] at hheld
    cases hheld
  refine ⟨h.nodup, ?named, ?held, ?unique⟩
  case named =>
    intro j m hm
    rw [state_enter] at hm
    refine h.named j m ?_
    rcases update_cases s.state i j (.writing k) with ⟨rfl, hstate⟩ | ⟨_, hstate⟩
    · rw [hstate] at hm
      rwa [hwaiting]
    · rwa [hstate] at hm
  case held =>
    intro _ j m hj
    show Function.update s.held k true m = true
    by_cases hm : m = k
    · subst hm
      exact Function.update_self ..
    · rw [Function.update_of_ne hm]
      rcases state_of_enter hj with ⟨_, hmk⟩ | ⟨_, hstate⟩
      · exact absurd hmk hm
      · exact h.held hrunning j m hstate
  case unique =>
    intro j m n hj hm
    rcases state_of_enter hj with ⟨rfl, rfl⟩ | ⟨_, hstate⟩
    · rcases state_of_enter hm with ⟨rfl, -⟩ | ⟨_, hother⟩
      · rfl
      · exact absurd hother (hnobody m)
    · rcases state_of_enter hm with ⟨rfl, rfl⟩ | ⟨_, hother⟩
      · exact absurd hstate (hnobody j)
      · exact h.unique j m n hstate hother

theorem IsOrderly.leave (h : IsOrderly artifact s) (hwriting : s.state i = .writing k) :
    IsOrderly artifact (s.leave i k) := by
  refine ⟨h.nodup, ?named, ?held, ?unique⟩
  case named =>
    intro j m hm
    rw [state_leave] at hm
    rcases update_cases s.state i j .done with ⟨_, hstate⟩ | ⟨_, hstate⟩
    · rw [hstate] at hm
      cases hm
    · rw [hstate] at hm
      exact h.named j m hm
  case held =>
    intro hrunning j m hj
    obtain ⟨hne, hstate⟩ := state_of_leave hj
    have hmk : m ≠ k := by
      rintro rfl
      exact hne (h.unique j i m hstate hwriting)
    show Function.update s.held k false m = true
    rw [Function.update_of_ne hmk]
    exact h.held hrunning j m hstate
  case unique =>
    intro j m n hj hm
    exact h.unique j m n (state_of_leave hj).2 (state_of_leave hm).2

omit [DecidableEq ι] in
theorem IsOrderly.cancel (h : IsOrderly artifact s) : IsOrderly artifact s.cancel := by
  refine ⟨h.nodup, ?named, nofun, ?unique⟩
  case named =>
    intro j m hm
    refine h.named j m ?_
    have hafter : (afterCancel (s.state j)).lock? = some m := hm
    cases hstate : s.state j with
    | writing n =>
        rw [hstate] at hafter
        exact hafter
    | idle | waiting | done =>
        rw [hstate] at hafter
        cases hafter
  case unique =>
    intro j m n hj hm
    exact h.unique j m n (state_of_cancel hj) (state_of_cancel hm)

theorem Step.isOrderly (hstep : Step artifact s s') (h : IsOrderly artifact s) :
    IsOrderly artifact s' := by
  cases hstep with
  | ask i _ _ => exact h.ask i
  | enter i k hrunning hwaiting hfree => exact h.enter hrunning hwaiting hfree
  | leave i k hwriting => exact h.leave hwriting
  | cancel _ => exact h.cancel

theorem Reachable.isOrderly (h : Reachable artifact s) : IsOrderly artifact s := by
  induction h with
  | initial => exact isOrderly_initial
  | step _ hstep ih => exact hstep.isOrderly ih

omit [DecidableEq ι] in
theorem IsOrderly.eq_of_isWriting (h : IsOrderly artifact s) (hi : s.IsWriting i)
    (hj : s.IsWriting j)
    (hbase : (Path.ofText (artifact i)).stem = (Path.ofText (artifact j)).stem) : i = j := by
  obtain ⟨k, hk⟩ := hi
  obtain ⟨m, hm⟩ := hj
  have hnamedk : s.locks.bases[k]? = some (Path.ofText (artifact i)).stem :=
    h.named i k (by rw [hk]; rfl)
  have hnamedm : s.locks.bases[m]? = some (Path.ofText (artifact j)).stem :=
    h.named j m (by rw [hm]; rfl)
  have hbound : k < s.locks.bases.length := (List.getElem?_eq_some_iff.mp hnamedk).1
  obtain rfl : k = m := by
    rw [← List.getElem?_inj hbound h.nodup, hnamedk, hnamedm, hbase]
  exact h.unique i j k hk hm

end Writers

/-! ## Which artifacts are kept apart -/

/-- Do writers of the two artifacts never write at the same time, whichever others there are? -/
def AreSerialized (n m : Text) : Prop :=
  ∀ (ι : Type) [DecidableEq ι] (artifact : ι → Text) (s : Writers ι),
    Writers.Reachable artifact s → ∀ i j, i ≠ j → artifact i = n → artifact j = m →
      ¬ (s.IsWriting i ∧ s.IsWriting j)

/-- Two writers whose artifacts have different base names can write at the same time. -/
theorem exists_both_writing {n m : Text} (h : (Path.ofText n).stem ≠ (Path.ofText m).stem) :
    ∃ s : Writers Bool, Writers.Reachable (fun b => if b then n else m) s
      ∧ s.IsWriting true ∧ s.IsWriting false := by
  let artifact (b : Bool) : Text := if b then n else m
  let first : Writers Bool := (Writers.initial.ask artifact true).enter true 0
  have hfirst : Writers.Reachable artifact first :=
    .step (.step .initial (.ask true rfl rfl)) (.enter true 0 rfl rfl rfl)
  have hbases : first.locks = { bases := [(Path.ofText n).stem] } := rfl
  have hlock : (first.locks.lockFor m).1 = 1 := by
    rcases first.locks.lockFor_cases m with ⟨k, hk, -⟩ | ⟨_, hnew⟩
    · rw [hbases] at hk
      have hmem := List.mem_of_getElem? hk
      exact absurd (List.mem_singleton.mp hmem).symm h
    · rw [hnew, hbases]
      rfl
  let second : Writers Bool := first.ask artifact false
  have hwaiting : second.state false = .waiting 1 := by
    rw [← hlock]
    rfl
  refine ⟨second.enter false 1, ?_, ⟨0, rfl⟩, ⟨1, rfl⟩⟩
  exact .step (.step hfirst (.ask false rfl rfl)) (.enter false 1 rfl hwaiting rfl)

theorem areSerialized_iff {n m : Text} :
    AreSerialized n m ↔ (Path.ofText n).stem = (Path.ofText m).stem := by
  constructor
  · intro h
    by_contra hne
    obtain ⟨s, hs, htrue, hfalse⟩ := exists_both_writing hne
    exact h Bool _ s hs true false nofun rfl rfl ⟨htrue, hfalse⟩
  · rintro hbase ι _ artifact s hs i j hij rfl rfl ⟨hi, hj⟩
    exact hij (hs.isOrderly.eq_of_isWriting hi hj hbase)

/-! ## Which files are the same -/

def SchemaPaths.files (pipeline : Path) (artifact : Text) : Set Path :=
  { p | p ∈ (ofArtifact pipeline artifact).toList }

theorem SchemaPaths.toList_ofArtifact (pipeline : Path) (artifact : Text) :
    (ofArtifact pipeline artifact).toList
      = endings.map fun e => (pipeline / "schemas").child ((Path.ofText artifact).stem ++ e) := by
  rw [ofArtifact_eq]
  rfl

theorem Path.child_injective (dir : Path) : Function.Injective dir.child := by
  intro name other h
  have hname := congrArg Path.name h
  rwa [name_child, name_child] at hname

theorem SchemaPaths.nodup_toList (pipeline : Path) (artifact : Text) :
    (ofArtifact pipeline artifact).toList.Nodup := by
  have hendings : endings.Nodup := by decide
  rw [toList_ofArtifact]
  refine hendings.map ?_
  intro e e' h
  exact List.append_cancel_left (Path.child_injective _ h)

theorem SchemaPaths.mem_files_iff {pipeline p : Path} {artifact : Text} :
    p ∈ files pipeline artifact
      ↔ ∃ e ∈ endings, p = (pipeline / "schemas").child ((Path.ofText artifact).stem ++ e) := by
  show p ∈ (ofArtifact pipeline artifact).toList ↔ _
  rw [toList_ofArtifact, List.mem_map]
  constructor
  · rintro ⟨e, he, rfl⟩
    exact ⟨e, he, rfl⟩
  · rintro ⟨e, he, rfl⟩
    exact ⟨e, he, rfl⟩

theorem SchemaPaths.files_congr {n m : Text} (pipeline : Path)
    (h : (Path.ofText n).stem = (Path.ofText m).stem) : files pipeline n = files pipeline m := by
  ext p
  rw [mem_files_iff, mem_files_iff, h]

theorem SchemaPaths.stem_eq_of_mem {n m : Text} {pipeline p : Path} (hn : p ∈ files pipeline n)
    (hm : p ∈ files pipeline m) : (Path.ofText n).stem = (Path.ofText m).stem := by
  obtain ⟨e, he, rfl⟩ := mem_files_iff.mp hn
  obtain ⟨e', he', h⟩ := mem_files_iff.mp hm
  exact (ending_unique he he' (Path.child_injective _ h)).2

theorem SchemaPaths.files_eq_iff {n m : Text} {pipeline : Path} :
    files pipeline n = files pipeline m ↔ (Path.ofText n).stem = (Path.ofText m).stem := by
  constructor
  · intro h
    have hmem : (ofArtifact pipeline n).schema ∈ files pipeline n := List.mem_cons_self
    exact stem_eq_of_mem hmem (h ▸ hmem)
  · exact files_congr pipeline

/-- **Files and locks agree.** Whatever the names of two artifacts are: the files of one are three
different names right in the directory of the schemas; the two have all their files in common or
none; and they have them in common iff their base names are the same, which is iff the locks keep
their writers from writing at the same time. -/
theorem files_shared_iff_serialized (pipeline : Path) (n m : Text) :
    (SchemaPaths.ofArtifact pipeline n).toList.Nodup
      ∧ (∀ p ∈ SchemaPaths.files pipeline n,
          ∃ name, Path.IsName name ∧ p = (pipeline / "schemas").child name)
      ∧ ((∀ p ∈ SchemaPaths.files pipeline n, p ∉ SchemaPaths.files pipeline m)
          ∨ SchemaPaths.files pipeline n = SchemaPaths.files pipeline m)
      ∧ (SchemaPaths.files pipeline n = SchemaPaths.files pipeline m
          ↔ (Path.ofText n).stem = (Path.ofText m).stem)
      ∧ ((Path.ofText n).stem = (Path.ofText m).stem ↔ AreSerialized n m) := by
  refine ⟨SchemaPaths.nodup_toList pipeline n, ?inDirectory, ?disjoint, SchemaPaths.files_eq_iff,
    areSerialized_iff.symm⟩
  case inDirectory =>
    intro p hp
    obtain ⟨e, he, rfl⟩ := SchemaPaths.mem_files_iff.mp hp
    exact ⟨_, isName_ending (Path.noSlash_stem n) he, rfl⟩
  case disjoint =>
    by_cases hbase : (Path.ofText n).stem = (Path.ofText m).stem
    · exact Or.inr (SchemaPaths.files_congr pipeline hbase)
    · left
      intro p hn hm
      exact hbase (SchemaPaths.stem_eq_of_mem hn hm)

/-- Only the last extension is taken off, so these two artifacts have no file in common. -/
example : ¬ AreSerialized (Text.ofString "a/data.schema.json") (Text.ofString "b/data.json") := by
  rw [areSerialized_iff]
  decide

end TaskContract
