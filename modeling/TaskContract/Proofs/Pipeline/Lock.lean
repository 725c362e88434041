import TaskContract.Pipeline.Run

/-!
# The lock around a run

A run that gets the lock leaves it as free as it was, provided that its parts do not touch it.
-/

namespace TaskContract

variable {σ : Type}

structure AcquiresLock (l : PipelineLocation) (w : World σ) : Prop where
  slug : Slug.isValid l.slug = true
  acquired : (w.lock.acquire l.slug).1 = .ok .acquired

def World.held (w : World σ) (slug : Text) : World σ :=
  { w with lock := { holder := some slug } }

theorem Lock.acquire_eq_acquired {k : Lock} {slug : Text}
    (h : (k.acquire slug).1 = .ok .acquired) :
    slug.isEmpty = false ∧ k = {} ∧ k.acquire slug = (.ok .acquired, { holder := some slug }) := by
  obtain ⟨holder⟩ := k
  rw [Lock.acquire] at h ⊢
  by_cases hempty : slug.isEmpty = true
  · rw [if_pos hempty] at h
    cases h
  · rw [if_neg hempty] at h ⊢
    cases holder with
    | none => exact ⟨Bool.eq_false_iff.mpr hempty, rfl, rfl⟩
    | some other => cases h

theorem Lock.release_own {slug : Text} (h : slug.isEmpty = false) :
    Lock.release { holder := some slug } slug = (.ok (), {}) := by
  rw [Lock.release, if_neg (by simp [h])]
  exact if_pos rfl

theorem analyzePipeline_of_acquires {c : Conditions σ} {l : PipelineLocation} {w : World σ}
    (h : AcquiresLock l w)
    (hlock : ((Run.reported c l).run (w.held l.slug)).2.lock = { holder := some l.slug }) :
    analyzePipeline c l w
      = (((Run.reported c l).run (w.held l.slug)).1.mapError RunError.trouble,
        { ((Run.reported c l).run (w.held l.slug)).2 with lock := w.lock }) := by
  obtain ⟨hslug, hfree, hacquire⟩ := Lock.acquire_eq_acquired h.acquired
  have hvalid : (!Slug.isValid l.slug) = false := by rw [h.slug, Bool.not_true]
  rw [analyzePipeline, hvalid, hacquire, if_neg Bool.false_ne_true]
  dsimp only
  rw [← World.held]
  cases hrun : (Run.reported c l).run (w.held l.slug) with
  | mk result w' =>
      rw [hrun] at hlock
      dsimp only at hlock ⊢
      rw [hlock, Lock.release_own hslug, hfree]

theorem analyzePipeline_of_not_acquires {c : Conditions σ} {l : PipelineLocation} {w : World σ}
    (h : ¬ AcquiresLock l w) : ∃ e, analyzePipeline c l w = (.error e, w) := by
  rw [analyzePipeline]
  split
  · exact ⟨_, rfl⟩
  · rename_i hvalid
    have hslug : Slug.isValid l.slug = true := by simpa using hvalid
    split
    · exact ⟨_, rfl⟩
    · exact ⟨_, rfl⟩
    · rename_i hacquired
      exact absurd ⟨hslug, by rw [hacquired]⟩ h

theorem analyzePipeline_of_refused {c : Conditions σ} {l : PipelineLocation} {w : World σ}
    {holder : Text} (h : (w.lock.acquire l.slug).1 = .ok (.refused holder)) :
    ∃ e, analyzePipeline c l w = (.error e, w) := by
  refine analyzePipeline_of_not_acquires fun hlock => ?_
  have hacquired := hlock.acquired
  rw [h] at hacquired
  cases hacquired

end TaskContract
