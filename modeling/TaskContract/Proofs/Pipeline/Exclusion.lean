import Mathlib.Logic.Function.Basic
import TaskContract.Pipeline.Lock

/-!
# Runs that share a lock

Any number of runs take and give back one lock, in any order of their steps. The lock knows a holder
by its slug alone, and runs may have the same slug. They are told apart by how they go on: a run
that does not get the lock leaves without giving it back. `lock_admits_one` collects what follows
for every state that the runs can come to.
-/

namespace TaskContract

def LockError.isNotHeld : LockError → Bool
  | .notHeld _ | .heldByOther .. => true
  | .invalidSlug _ => false

namespace Lock

/-! ## What taking and giving back can do -/

theorem release_nil (k : Lock) : k.release [] = (.error (.invalidSlug "str"), k) :=
  rfl

theorem acquire_cases (k : Lock) (slug : Text) :
    slug = [] ∨ (slug ≠ [] ∧ k.holder = none
        ∧ k.acquire slug = (.ok .acquired, { holder := some slug }))
      ∨ ∃ holder, k.holder = some holder ∧ k.acquire slug = (.ok (.refused holder), k) := by
  obtain ⟨holder⟩ := k
  cases slug with
  | nil => exact Or.inl rfl
  | cons c rest =>
      cases holder with
      | none => exact Or.inr (Or.inl ⟨nofun, rfl, rfl⟩)
      | some holder => exact Or.inr (Or.inr ⟨holder, rfl, rfl⟩)

theorem acquired_iff {k : Lock} {slug : Text} :
    (k.acquire slug).1 = .ok .acquired ↔ slug ≠ [] ∧ k.holder = none := by
  constructor
  · intro h
    rcases k.acquire_cases slug with rfl | ⟨hslug, hfree, _⟩ | ⟨holder, _, hrefused⟩
    · cases h
    · exact ⟨hslug, hfree⟩
    · rw [hrefused] at h
      cases h
  · rintro ⟨hslug, hfree⟩
    rcases k.acquire_cases slug with rfl | ⟨_, _, hacquired⟩ | ⟨holder, hheld, _⟩
    · exact absurd rfl hslug
    · rw [hacquired]
    · rw [hfree] at hheld
      cases hheld

/-- Whoever does not get the lock leaves it as it is. -/
theorem acquire_frame {k : Lock} {slug : Text} (h : (k.acquire slug).1 ≠ .ok .acquired) :
    (k.acquire slug).2 = k := by
  rcases k.acquire_cases slug with rfl | ⟨_, _, hacquired⟩ | ⟨holder, _, hrefused⟩
  · rfl
  · rw [hacquired] at h
    exact absurd rfl h
  · rw [hrefused]

theorem refused_spec {k : Lock} {slug holder : Text}
    (h : (k.acquire slug).1 = .ok (.refused holder)) :
    k.holder = some holder ∧ (k.acquire slug).2 = k := by
  rcases k.acquire_cases slug with rfl | ⟨_, _, hacquired⟩ | ⟨other, hheld, hrefused⟩
  · cases h
  · rw [hacquired] at h
    cases h
  · rw [hrefused] at h ⊢
    cases h
    exact ⟨hheld, rfl⟩

theorem release_of_holder {k : Lock} {slug : Text} (hslug : slug ≠ [])
    (h : k.holder = some slug) : k.release slug = (.ok (), {}) := by
  obtain ⟨holder⟩ := k
  obtain rfl : holder = some slug := h
  rw [release, if_neg (by simpa using hslug)]
  exact if_pos rfl

theorem release_of_free {k : Lock} {slug : Text} (hslug : slug ≠ []) (h : k.holder = none) :
    k.release slug = (.error (.notHeld slug), k) := by
  obtain ⟨holder⟩ := k
  obtain rfl : holder = none := h
  rw [release, if_neg (by simpa using hslug)]

theorem release_of_other {k : Lock} {slug holder : Text} (hslug : slug ≠ [])
    (h : k.holder = some holder) (hother : holder ≠ slug) :
    k.release slug = (.error (.heldByOther slug holder), k) := by
  obtain ⟨current⟩ := k
  obtain rfl : current = some holder := h
  rw [release, if_neg (by simpa using hslug)]
  exact if_neg hother

end Lock

/-! ## Runs with one lock -/

/-- Where a run stands with the lock: it has not asked for it yet, it has it, or it has left. -/
inductive Standing where
  | waiting
  | inside
  | gone

structure SharedLock (ι : Type) where
  lock : Lock
  standing : ι → Standing

namespace SharedLock

variable {ι : Type} [DecidableEq ι] {slug : ι → Text} {s s' : SharedLock ι} {i j : ι}

def initial : SharedLock ι :=
  { lock := {}, standing := fun _ => .waiting }

def enter (slug : ι → Text) (s : SharedLock ι) (i : ι) : SharedLock ι :=
  { lock := (s.lock.acquire (slug i)).2, standing := Function.update s.standing i .inside }

def turnAway (slug : ι → Text) (s : SharedLock ι) (i : ι) : SharedLock ι :=
  { lock := (s.lock.acquire (slug i)).2, standing := Function.update s.standing i .gone }

def leave (slug : ι → Text) (s : SharedLock ι) (i : ι) : SharedLock ι :=
  { lock := (s.lock.release (slug i)).2, standing := Function.update s.standing i .gone }

/-- A step of one run: it asks for the lock, once, or it gives back the lock that it got. -/
inductive Step (slug : ι → Text) (s : SharedLock ι) : SharedLock ι → Prop where
  | enter (i : ι) (waiting : s.standing i = .waiting)
      (acquired : (s.lock.acquire (slug i)).1 = .ok .acquired) : Step slug s (s.enter slug i)
  | turnAway (i : ι) (waiting : s.standing i = .waiting)
      (refused : (s.lock.acquire (slug i)).1 ≠ .ok .acquired) : Step slug s (s.turnAway slug i)
  | leave (i : ι) (inside : s.standing i = .inside) : Step slug s (s.leave slug i)

/-- The states that the runs come to, whatever the order of their steps. -/
inductive Reachable (slug : ι → Text) : SharedLock ι → Prop where
  | initial : Reachable slug initial
  | step {s s' : SharedLock ι} (reachable : Reachable slug s) (step : Step slug s s') :
      Reachable slug s'

/-- At most one run is inside, and the lock is held for its slug and for nothing else. -/
structure Exclusive (slug : ι → Text) (s : SharedLock ι) : Prop where
  unique : ∀ i j, s.standing i = .inside → s.standing j = .inside → i = j
  named : ∀ i, s.standing i = .inside → slug i ≠ [] ∧ s.lock.holder = some (slug i)
  owned : ∀ t, s.lock.holder = some t → ∃ i, s.standing i = .inside ∧ slug i = t

omit [DecidableEq ι] in
theorem exclusive_initial : Exclusive slug initial where
  unique := nofun
  named := nofun
  owned := nofun

omit [DecidableEq ι] in
/-- In a state with a free lock no run is inside. -/
theorem Exclusive.outside (h : Exclusive slug s) (hfree : s.lock.holder = none) :
    s.standing i ≠ .inside := by
  intro hi
  have hheld := (h.named i hi).2
  rw [hfree] at hheld
  cases hheld

theorem inside_of_gone (h : Function.update s.standing i .gone j = .inside) :
    j ≠ i ∧ s.standing j = .inside := by
  by_cases hj : j = i
  · subst hj
    rw [Function.update_self] at h
    cases h
  · rw [Function.update_of_ne hj] at h
    exact ⟨hj, h⟩

theorem Exclusive.enter (h : Exclusive slug s)
    (hacquired : (s.lock.acquire (slug i)).1 = .ok .acquired) :
    Exclusive slug (s.enter slug i) := by
  obtain ⟨hslug, hfree⟩ := Lock.acquired_iff.mp hacquired
  have hlock : (s.enter slug i).lock = { holder := some (slug i) } := by
    rcases s.lock.acquire_cases (slug i) with hnil | ⟨_, _, hacquire⟩ | ⟨holder, hheld, _⟩
    · exact absurd hnil hslug
    · rw [SharedLock.enter, hacquire]
    · rw [hfree] at hheld
      cases hheld
  have honly : ∀ j, (s.enter slug i).standing j = .inside → j = i := by
    intro j hj
    by_contra hne
    have hstanding : (s.enter slug i).standing j = s.standing j := Function.update_of_ne hne ..
    rw [hstanding] at hj
    exact h.outside hfree hj
  refine ⟨?unique, ?named, ?owned⟩
  case unique =>
    intro j k hj hk
    rw [honly j hj, honly k hk]
  case named =>
    intro j hj
    rw [honly j hj, hlock]
    exact ⟨hslug, rfl⟩
  case owned =>
    intro t ht
    rw [hlock] at ht
    exact ⟨i, Function.update_self .., Option.some.inj ht⟩

theorem Exclusive.turnAway (h : Exclusive slug s) (hwaiting : s.standing i = .waiting)
    (hrefused : (s.lock.acquire (slug i)).1 ≠ .ok .acquired) :
    Exclusive slug (s.turnAway slug i) := by
  have hlock : (s.turnAway slug i).lock = s.lock := Lock.acquire_frame hrefused
  refine ⟨?unique, ?named, ?owned⟩
  case unique =>
    intro j k hj hk
    exact h.unique j k (inside_of_gone hj).2 (inside_of_gone hk).2
  case named =>
    intro j hj
    rw [hlock]
    exact h.named j (inside_of_gone hj).2
  case owned =>
    intro t ht
    rw [hlock] at ht
    obtain ⟨j, hj, rfl⟩ := h.owned t ht
    have hne : j ≠ i := by
      rintro rfl
      rw [hwaiting] at hj
      cases hj
    exact ⟨j, (Function.update_of_ne hne ..).trans hj, rfl⟩

theorem Exclusive.leave (h : Exclusive slug s) (hinside : s.standing i = .inside) :
    Exclusive slug (s.leave slug i) := by
  obtain ⟨hslug, hheld⟩ := h.named i hinside
  have hlock : (s.leave slug i).lock = {} := by
    rw [SharedLock.leave, Lock.release_of_holder hslug hheld]
  -- the run that leaves was the only one inside
  have hempty : ∀ j, (s.leave slug i).standing j ≠ .inside := by
    intro j hj
    obtain ⟨hne, hj⟩ := inside_of_gone hj
    exact hne (h.unique j i hj hinside)
  refine ⟨?unique, ?named, ?owned⟩
  case unique =>
    intro j _ hj
    exact absurd hj (hempty j)
  case named =>
    intro j hj
    exact absurd hj (hempty j)
  case owned =>
    intro t ht
    rw [hlock] at ht
    cases ht

theorem Step.exclusive (hstep : Step slug s s') (h : Exclusive slug s) : Exclusive slug s' := by
  cases hstep with
  | enter i _ hacquired => exact h.enter hacquired
  | turnAway i hwaiting hrefused => exact h.turnAway hwaiting hrefused
  | leave i hinside => exact h.leave hinside

theorem Reachable.exclusive (h : Reachable slug s) : Exclusive slug s := by
  induction h with
  | initial => exact exclusive_initial
  | step _ hstep ih => exact hstep.exclusive ih

/-- **The lock admits one run.** Whatever the slugs of the runs and the order of their steps: at
most one run is inside; the lock is held for its slug, and free if there is none; the run inside can
give the lock back. Whoever is refused is told of the holder and changes nothing. A proper slug that
is not the holder's cannot give the lock back: that is an error that names the holder if there is
one, and the lock stays as it is. -/
theorem lock_admits_one (h : Reachable slug s) :
    (∀ i j, s.standing i = .inside → s.standing j = .inside → i = j)
      ∧ (∀ i, s.standing i = .inside → s.lock.holder = some (slug i))
      ∧ ((∀ i, s.standing i ≠ .inside) → s.lock.holder = none)
      ∧ (∀ i, s.standing i = .inside → s.lock.release (slug i) = (.ok (), {}))
      ∧ (∀ t holder, (s.lock.acquire t).1 = .ok (.refused holder) →
        s.lock.holder = some holder ∧ (s.lock.acquire t).2 = s.lock)
      ∧ (∀ t holder, t ≠ [] → s.lock.holder = some holder →
        (s.lock.acquire t).1 = .ok (.refused holder))
      ∧ (∀ t, t ≠ [] → s.lock.holder = none → s.lock.release t = (.error (.notHeld t), s.lock))
      ∧ (∀ t holder, t ≠ [] → s.lock.holder = some holder → holder ≠ t →
        s.lock.release t = (.error (.heldByOther t holder), s.lock))
      ∧ s.lock.release [] = (.error (.invalidSlug "str"), s.lock) := by
  have hexclusive := h.exclusive
  refine ⟨hexclusive.unique, fun i hi => (hexclusive.named i hi).2, ?free, ?own, ?refused, ?taken,
    fun t => Lock.release_of_free, fun t holder => Lock.release_of_other, Lock.release_nil _⟩
  case free =>
    intro hempty
    cases hholder : s.lock.holder with
    | none => rfl
    | some t =>
        obtain ⟨i, hi, _⟩ := hexclusive.owned t hholder
        exact absurd hi (hempty i)
  case own =>
    intro i hi
    obtain ⟨hslug, hheld⟩ := hexclusive.named i hi
    exact Lock.release_of_holder hslug hheld
  case refused =>
    intro t holder
    exact Lock.refused_spec
  case taken =>
    intro t holder ht hheld
    rcases s.lock.acquire_cases t with hnil | ⟨_, hfree, _⟩ | ⟨other, hother, hrefused⟩
    · exact absurd hnil ht
    · rw [hheld] at hfree
      cases hfree
    · rw [hheld] at hother
      rw [hrefused, Option.some.inj hother]

/-- Two runs with the same slug: one is inside, the other has been refused. -/
def twinRuns : SharedLock Bool :=
  (initial.enter (fun _ => Text.ofString "p") true).turnAway (fun _ => Text.ofString "p") false

theorem twinRuns_reachable : Reachable (fun _ : Bool => Text.ofString "p") twinRuns :=
  .step (.step .initial (.enter true rfl rfl)) (.turnAway false rfl nofun)

theorem twinRuns_lock : Reachable (fun _ : Bool => Text.ofString "p") twinRuns
    ∧ twinRuns.lock.holder = some (Text.ofString "p")
    ∧ twinRuns.lock.release (Text.ofString "q")
      = (.error (.heldByOther (Text.ofString "q") (Text.ofString "p")), twinRuns.lock) := by
  have hheld := (lock_admits_one twinRuns_reachable).2.1 true rfl
  have hother := (lock_admits_one twinRuns_reachable).2.2.2.2.2.2.2.1
  exact ⟨twinRuns_reachable, hheld, hother _ _ (by decide) hheld (by decide)⟩

/-- No slug at all is refused as one, even if the lock is free: that is no error about the
holder. -/
theorem empty_slug_not_reported_as_unheld :
    ¬ ∀ (slug : Unit → Text) (s : SharedLock Unit), Reachable slug s → ∀ t, s.lock.holder = none →
      ∃ e, s.lock.release t = (.error e, s.lock) ∧ e.isNotHeld = true := by
  intro h
  obtain ⟨e, hrelease, he⟩ := h (fun _ => []) initial .initial [] rfl
  rw [Lock.release_nil] at hrelease
  cases hrelease
  cases he

end SharedLock

end TaskContract
