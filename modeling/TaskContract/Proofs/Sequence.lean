import Mathlib.Data.List.Forall2

/-!
# Parts in sequence

A list is read item by item until one reading fails; and a part of a program with a state fails or
goes on with what the part before it has left.
-/

namespace TaskContract

variable {α β γ ε : Type} {f : α → Except ε β}

theorem eq_ok_of_toOption {x : Except ε α} {a : α} (h : x.toOption = some a) : x = .ok a := by
  cases x with
  | error e => cases h
  | ok b =>
      obtain rfl := Option.some.inj h
      rfl

theorem eq_error_of_toOption {x : Except ε α} (h : x.toOption = none) : ∃ e, x = .error e := by
  cases x with
  | error e => exact ⟨e, rfl⟩
  | ok b => cases h

theorem exists_ok_of_any {x : Except ε α} {p : α → Bool} (h : x.toOption.any p = true) :
    ∃ a, x = .ok a ∧ p a = true := by
  cases x with
  | error e => cases h
  | ok a => exact ⟨a, rfl, h⟩

theorem bind_eq_ok_iff {x : Except ε α} {g : α → Except ε β} {b : β} :
    x >>= g = .ok b ↔ ∃ a, x = .ok a ∧ g a = .ok b := by
  cases x with
  | error e => exact ⟨nofun, nofun⟩
  | ok a =>
      constructor
      · intro h
        exact ⟨a, rfl, h⟩
      · rintro ⟨_, ⟨⟩, h⟩
        exact h

theorem bind_eq_error_iff {x : Except ε α} {g : α → Except ε β} {e : ε} :
    x >>= g = .error e ↔ x = .error e ∨ ∃ a, x = .ok a ∧ g a = .error e := by
  cases x with
  | error e' =>
      constructor
      · intro h
        exact Or.inl (congrArg Except.error (Except.error.inj h))
      · rintro (h | ⟨_, h, -⟩)
        · exact congrArg Except.error (Except.error.inj h)
        · cases h
  | ok a =>
      constructor
      · intro h
        exact Or.inr ⟨a, rfl, h⟩
      · rintro (h | ⟨_, ⟨⟩, h⟩)
        · cases h
        · exact h

/-- A result that is only put into another form. -/
theorem bind_return_eq_ok_iff {x : Except ε α} {g : α → β} {b : β} :
    (do let a ← x; return g a) = Except.ok b ↔ ∃ a, x = .ok a ∧ g a = b := by
  rw [bind_eq_ok_iff]
  exact exists_congr fun a => and_congr_right' ⟨Except.ok.inj, congrArg Except.ok⟩

theorem mapM_eq_ok_iff {xs : List α} {ys : List β} :
    xs.mapM f = .ok ys ↔ List.Forall₂ (fun x y => f x = .ok y) xs ys := by
  induction xs generalizing ys with
  | nil =>
      rw [List.mapM_nil, List.forall₂_nil_left_iff]
      exact ⟨fun h => (Except.ok.inj h).symm, fun h => congrArg Except.ok h.symm⟩
  | cons x rest ih =>
      rw [List.mapM_cons, List.forall₂_cons_left_iff, bind_eq_ok_iff]
      constructor
      · rintro ⟨y, hy, h⟩
        obtain ⟨zs, hzs, rfl⟩ := bind_return_eq_ok_iff.mp h
        exact ⟨y, zs, hy, ih.mp hzs, rfl⟩
      · rintro ⟨y, zs, hy, hzs, rfl⟩
        exact ⟨y, hy, bind_return_eq_ok_iff.mpr ⟨zs, ih.mpr hzs, rfl⟩⟩

theorem mem_of_mapM {xs : List α} {ys : List β} {y : β} (h : xs.mapM f = .ok ys) (hy : y ∈ ys) :
    ∃ x ∈ xs, f x = .ok y := by
  have hall := mapM_eq_ok_iff.mp h
  clear h
  induction hall with
  | nil => cases hy
  | @cons x z xs zs hx _ ih =>
      rcases List.mem_cons.mp hy with rfl | hy
      · exact ⟨x, List.mem_cons_self, hx⟩
      · obtain ⟨w, hw, hwy⟩ := ih hy
        exact ⟨w, List.mem_cons_of_mem x hw, hwy⟩

theorem mapM_succeeds_iff {xs : List α} :
    (∃ ys, xs.mapM f = .ok ys) ↔ ∀ x ∈ xs, ∃ y, f x = .ok y := by
  induction xs with
  | nil => simp [pure, Except.pure]
  | cons x rest ih =>
      rw [List.forall_mem_cons, ← ih]
      simp only [mapM_eq_ok_iff, List.forall₂_cons_left_iff]
      constructor
      · rintro ⟨_, y, ys, hy, hys, rfl⟩
        exact ⟨⟨y, hy⟩, ys, hys⟩
      · rintro ⟨⟨y, hy⟩, ys, hys⟩
        exact ⟨y :: ys, y, ys, hy, hys, rfl⟩

theorem mapM_eq_error_iff {xs : List α} {e : ε} :
    xs.mapM f = .error e ↔ ∃ before x after, xs = before ++ x :: after
      ∧ (∀ y ∈ before, ∃ z, f y = .ok z) ∧ f x = .error e := by
  induction xs with
  | nil =>
      constructor
      · intro h
        cases h
      · rintro ⟨before, x, after, h, -⟩
        cases before <;> cases h
  | cons x rest ih =>
      rw [List.mapM_cons, bind_eq_error_iff]
      constructor
      · rintro (hx | ⟨y, hy, hrest⟩)
        · exact ⟨[], x, rest, rfl, List.forall_mem_nil _, hx⟩
        · rcases bind_eq_error_iff.mp hrest with hrest | ⟨ys, _, hreturn⟩
          · obtain ⟨before, z, after, rfl, hbefore, hz⟩ := ih.mp hrest
            exact ⟨x :: before, z, after, rfl, List.forall_mem_cons.mpr ⟨⟨y, hy⟩, hbefore⟩, hz⟩
          · cases hreturn
      · rintro ⟨before, z, after, hsplit, hbefore, hz⟩
        cases before with
        | nil =>
            obtain ⟨rfl, rfl⟩ := List.cons.inj hsplit
            exact Or.inl hz
        | cons w before =>
            obtain ⟨rfl, rfl⟩ := List.cons.inj hsplit
            obtain ⟨⟨y, hy⟩, hbefore⟩ := List.forall_mem_cons.mp hbefore
            have hrest := ih.mpr ⟨before, z, after, rfl, hbefore, hz⟩
            exact Or.inr ⟨y, hy, bind_eq_error_iff.mpr (Or.inl hrest)⟩

theorem mapM_congr_mem {g : α → Except ε β} {xs : List α} (h : ∀ x ∈ xs, f x = g x) :
    xs.mapM f = xs.mapM g := by
  induction xs with
  | nil => rfl
  | cons x rest ih =>
      rw [List.mapM_cons, List.mapM_cons, h x List.mem_cons_self,
        ih fun y hy => h y (List.mem_cons_of_mem x hy)]

theorem mapM_map_result (g : β → γ) (xs : List α) :
    xs.mapM (fun x => (f x).map g) = (xs.mapM f).map (List.map g) := by
  induction xs with
  | nil => rfl
  | cons x rest ih =>
      rw [List.mapM_cons, List.mapM_cons, ih]
      cases f x with
      | error e => rfl
      | ok y =>
          cases rest.mapM f with
          | error e => rfl
          | ok ys => rfl

/-- Items that are kept with what is made of them, paired with others. -/
theorem forall₂_filterMap_left {R : β → γ → Prop} {f : α → Option β} {xs : List α}
    {ys : List γ} (h : List.Forall₂ R (xs.filterMap f) ys) :
    List.Forall₂ (fun x y => ∃ b, f x = some b ∧ R b y) (xs.filter fun x => (f x).isSome) ys := by
  induction xs generalizing ys with
  | nil => simpa using h
  | cons x rest ih =>
      cases hx : f x with
      | none =>
          rw [List.filterMap_cons_none hx] at h
          rw [List.filter_cons_of_neg (by simp [hx])]
          exact ih h
      | some b =>
          rw [List.filterMap_cons_some hx, List.forall₂_cons_left_iff] at h
          obtain ⟨y, rest', hy, hrest, rfl⟩ := h
          rw [List.filter_cons_of_pos (by simp [hx])]
          exact List.Forall₂.cons ⟨b, hx, hy⟩ (ih hrest)

/-- What a partial reading makes of the items of a list, paired with the items it reads. -/
theorem forall₂_filter_filterMap {R : α → β → Prop} {f : α → Option β}
    [DecidablePred fun x => ∃ y, R x y] {xs : List α} (h : ∀ x ∈ xs, ∀ y, f x = some y ↔ R x y) :
    List.Forall₂ R (xs.filter fun x => ∃ y, R x y) (xs.filterMap f) := by
  induction xs with
  | nil => exact List.Forall₂.nil
  | cons x rest ih =>
      obtain ⟨hx, hrest⟩ := List.forall_mem_cons.mp h
      cases hread : f x with
      | none =>
          have hnone : ¬ ∃ y, R x y := by
            rintro ⟨y, hy⟩
            rw [(hx y).mpr hy] at hread
            cases hread
          rw [List.filterMap_cons_none hread, List.filter_cons_of_neg (by simpa using hnone)]
          exact ih hrest
      | some y =>
          have hy : R x y := (hx y).mp hread
          rw [List.filterMap_cons_some hread, List.filter_cons_of_pos (by simpa using ⟨y, hy⟩)]
          exact List.Forall₂.cons hy (ih hrest)

theorem forall₂_split_left {R : α → β → Prop} {front back : List α} {x : α}
    {ys : List β} (h : List.Forall₂ R (front ++ x :: back) ys) : ∃ earlier y later,
      ys = earlier ++ y :: later ∧ List.Forall₂ R front earlier ∧ R x y
        ∧ List.Forall₂ R back later := by
  induction front generalizing ys with
  | nil =>
      obtain ⟨y, later, hy, hlater, rfl⟩ := List.forall₂_cons_left_iff.mp h
      exact ⟨[], y, later, rfl, List.Forall₂.nil, hy, hlater⟩
  | cons w rest ih =>
      obtain ⟨z, ys, hz, hys, rfl⟩ := List.forall₂_cons_left_iff.mp h
      obtain ⟨earlier, y, later, rfl, hearlier, hy, hlater⟩ := ih hys
      exact ⟨z :: earlier, y, later, rfl, List.Forall₂.cons hz hearlier, hy, hlater⟩

/-! ## Parts with a state -/

section

variable {τ : Type}

theorem run_get (s : τ) : (get : ExceptT ε (StateM τ) τ).run s = (.ok s, s) :=
  rfl

theorem run_set (s s' : τ) : (set s' : ExceptT ε (StateM τ) PUnit).run s = (.ok (), s') :=
  rfl

theorem run_modify (g : τ → τ) (s : τ) :
    (modify g : ExceptT ε (StateM τ) PUnit).run s = (.ok (), g s) :=
  rfl

theorem run_bind (m : ExceptT ε (StateM τ) α) (g : α → ExceptT ε (StateM τ) β) (s : τ) :
    (m >>= g).run s = match m.run s with
      | (.ok a, s') => (g a).run s'
      | (.error e, s') => (.error e, s') := by
  show (ExceptT.bindCont g (m.run s).1).run (m.run s).2 = _
  cases m.run s with
  | mk r s' => cases r <;> rfl

theorem run_tryCatch (m : ExceptT ε (StateM τ) α) (h : ε → ExceptT ε (StateM τ) α) (s : τ) :
    (tryCatch m h).run s = match m.run s with
      | (.ok a, s') => (.ok a, s')
      | (.error e, s') => (h e).run s' := by
  simp only [tryCatch, tryCatchThe, MonadExceptOf.tryCatch, ExceptT.tryCatch, ExceptT.run,
    ExceptT.mk, bind, StateT.bind]
  cases m s with
  | mk r s' => cases r <;> rfl

end

end TaskContract
