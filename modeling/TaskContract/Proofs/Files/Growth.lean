import TaskContract.Proofs.Files.Tree

/-!
# How a file tree grows

The program never removes anything from a file tree: it makes directories where nothing is, and
writes files where no directory is. So what could be looked up once is looked up at the same place
for ever, and the places whose entries change are those of the directories that are made and of the
files that are written.
-/

namespace TaskContract.FileTree

variable {t t' t'' : FileTree}

/-- Directories stay directories and files stay files, but the text of a file may change. -/
structure Grows (t t' : FileTree) : Prop where
  current : t'.current = t.current
  directory : ∀ q, t.entry? q = some .directory → t'.entry? q = some .directory
  file : ∀ q text, t.entry? q = some (.file text) → ∃ text', t'.entry? q = some (.file text')

theorem Grows.refl (t : FileTree) : t.Grows t where
  current := rfl
  directory _ h := h
  file _ text h := ⟨text, h⟩

theorem Grows.trans (h : t.Grows t') (h' : t'.Grows t'') : t.Grows t'' where
  current := h'.current.trans h.current
  directory q hq := h'.directory q (h.directory q hq)
  file q text hq := by
    obtain ⟨text', hq'⟩ := h.file q text hq
    exact h'.file q text' hq'

theorem Grows.keeps (h : t.Grows t') : t.Keeps t' :=
  ⟨h.current, h.directory⟩

theorem Grows.absent (h : t.Grows t') {q : List Text} (hq : t'.entry? q = none) :
    t.entry? q = none := by
  cases hentry : t.entry? q with
  | none => rfl
  | some entry =>
      cases entry with
      | directory =>
          rw [h.directory q hentry] at hq
          cases hq
      | file text =>
          obtain ⟨text', hq'⟩ := h.file q text hentry
          rw [hq'] at hq
          cases hq

theorem ne_nil_of_entry {q : List Text} (h : t.entry? q ≠ some .directory) : q ≠ [] := by
  rintro rfl
  exact h t.entry_nil

theorem grows_insert_file {place : List Text} (h : t.entry? place ≠ some .directory)
    (text : Text) : t.Grows (t.insert place (.file text)) where
  current := rfl
  directory := (keeps_insert h _).2
  file q old hq := by
    by_cases hplace : q = place
    · subst hplace
      exact ⟨text, entry_insert_self t (ne_nil_of_entry h) _⟩
    · exact ⟨old, by rw [entry_insert_of_ne t hplace, hq]⟩

/-! ## Making directories -/

/-- The trees agree but for directories of the second that stand where the first has nothing. -/
structure MakesRoom (t t' : FileTree) : Prop where
  current : t'.current = t.current
  entry : ∀ q, t'.entry? q = t.entry? q ∨ (t.entry? q = none ∧ t'.entry? q = some .directory)

theorem MakesRoom.refl (t : FileTree) : t.MakesRoom t :=
  ⟨rfl, fun _ => Or.inl rfl⟩

theorem MakesRoom.trans (h : t.MakesRoom t') (h' : t'.MakesRoom t'') : t.MakesRoom t'' := by
  refine ⟨h'.current.trans h.current, ?_⟩
  intro q
  rcases h'.entry q with heq | ⟨hnone, hdir⟩
  · rw [heq]
    exact h.entry q
  · rcases h.entry q with heq | ⟨_, hdir'⟩
    · exact Or.inr ⟨heq ▸ hnone, hdir⟩
    · rw [hdir'] at hnone
      cases hnone

theorem MakesRoom.grows (h : t.MakesRoom t') : t.Grows t' where
  current := h.current
  directory q hq := by
    rcases h.entry q with heq | ⟨_, hdir⟩
    · rw [heq, hq]
    · exact hdir
  file q text hq := by
    rcases h.entry q with heq | ⟨hnone, _⟩
    · exact ⟨text, by rw [heq, hq]⟩
    · rw [hq] at hnone
      cases hnone

theorem makesRoom_insert {place : List Text} (h : t.entry? place = none) :
    t.MakesRoom (t.insert place .directory) := by
  refine ⟨rfl, ?_⟩
  intro q
  by_cases hplace : q = place
  · subst hplace
    have hne : q ≠ [] := ne_nil_of_entry (by rw [h]; exact nofun)
    exact Or.inr ⟨h, entry_insert_self t hne _⟩
  · exact Or.inl (entry_insert_of_ne t hplace _)

theorem unlessPresent_snd (t : FileTree) (p : Path) (e : FileFault) :
    (t.unlessPresent p e).2 = t := by
  unfold unlessPresent
  cases e.system? with
  | none => rfl
  | some _ =>
      dsimp only
      cases t.isDirectory p with
      | error e => rfl
      | ok present => cases present <;> rfl

variable {disk : Disk}

theorem makeDirectory_eq_ok {p : Path} (h : t.makeDirectory p disk = .ok t') :
    ∃ place, t.locate p = .ok (.missing place) ∧ t' = t.insert place .directory := by
  unfold makeDirectory at h
  split at h
  · rename_i place hlocate
    split at h
    · cases h
    · exact ⟨place, hlocate, (Except.ok.inj h).symm⟩
  · cases h
  · cases h

theorem makesRoom_makeDirectory {p : Path} (h : t.makeDirectory p disk = .ok t') :
    t.MakesRoom t' := by
  obtain ⟨place, hlocate, rfl⟩ := makeDirectory_eq_ok h
  exact makesRoom_insert (entry_of_missing hlocate)

def makeLast (t : FileTree) (disk : Disk) (p : Path) : Except FileError Unit × FileTree :=
  match t.makeDirectory p disk with
  | .ok t => (.ok (), t)
  | .error e => if e = .notFound then (fail p e, t) else t.unlessPresent p e

theorem makeLast_makesRoom (t : FileTree) (disk : Disk) (p : Path) :
    t.MakesRoom (t.makeLast disk p).2 := by
  unfold makeLast
  cases hmake : t.makeDirectory p disk with
  | ok made => exact makesRoom_makeDirectory hmake
  | error e =>
      dsimp only
      split
      · exact MakesRoom.refl t
      · rw [unlessPresent_snd]
        exact MakesRoom.refl t

/-- Directories are made by a last attempt, which another one may follow once there is room for
it. -/
theorem makeDirectoriesTo_cases (t : FileTree) (disk : Disk) (depth : Nat) (p : Path) :
    t.makeDirectoriesTo disk depth p = t.makeLast disk p
      ∨ ∃ above, depth = above + 1 ∧ t.makeDirectory p disk = .error .notFound
        ∧ t.makeDirectoriesTo disk depth p
          = match t.makeDirectoriesTo disk above p.parent with
            | (.error e, made) => (.error e, made)
            | (.ok (), made) => made.makeLast disk p := by
  cases depth with
  | zero => exact Or.inl rfl
  | succ above =>
      rw [makeDirectoriesTo, makeLast]
      cases hmake : t.makeDirectory p disk with
      | ok made => exact Or.inl rfl
      | error e =>
          dsimp only
          by_cases hnotFound : e = .notFound
          · refine Or.inr ⟨above, rfl, by rw [hnotFound], ?_⟩
            rw [if_pos hnotFound]
            rfl
          · rw [if_neg hnotFound, if_neg hnotFound]
            exact Or.inl rfl

theorem makeDirectoriesTo_makesRoom (disk : Disk) (depth : Nat) (p : Path) (t : FileTree) :
    t.MakesRoom (t.makeDirectoriesTo disk depth p).2 := by
  induction depth generalizing p with
  | zero => exact makeLast_makesRoom t disk p
  | succ above ih =>
      rcases makeDirectoriesTo_cases t disk (above + 1) p with hlast | ⟨_, habove, _, hmake⟩
      · rw [hlast]
        exact makeLast_makesRoom t disk p
      · obtain rfl := Nat.succ.inj habove
        have hroom := ih p.parent
        rw [hmake]
        generalize t.makeDirectoriesTo disk above p.parent = attempt at hroom ⊢
        obtain ⟨result, made⟩ := attempt
        cases result with
        | error e => exact hroom
        | ok v => exact hroom.trans (makeLast_makesRoom made disk p)

/-- Whether or not it fails, the attempt to make a directory with those above it does nothing but
make directories. -/
theorem makeDirectories_makesRoom (t : FileTree) (p : Path) (disk : Disk) :
    t.MakesRoom (t.makeDirectories p disk).2 :=
  makeDirectoriesTo_makesRoom disk _ p t

theorem locate_of_makeLast {p : Path} (h : t.makeLast disk p = (.ok (), t')) :
    ∃ place, t'.locate p = .ok (.directory place) := by
  unfold makeLast at h
  cases hmake : t.makeDirectory p disk with
  | ok made =>
      rw [hmake] at h
      obtain rfl := (Prod.mk.inj h).2
      obtain ⟨place, hlocate, rfl⟩ := makeDirectory_eq_ok hmake
      obtain ⟨made, hmade, _, hdir, _⟩ := Offers.makeDirectories (Or.inr hlocate)
      rw [makeDirectories_of_missing hlocate] at hmade
      obtain rfl := (Prod.mk.inj hmade).2
      exact ⟨place, hdir⟩
  | error e =>
      rw [hmake] at h
      dsimp only at h
      split at h
      · cases (Prod.mk.inj h).1
      · -- the directory is there already
        unfold unlessPresent at h
        split at h
        · cases (Prod.mk.inj h).1
        · split at h
          · rename_i hpresent
            obtain rfl := (Prod.mk.inj h).2
            unfold isDirectory test at hpresent
            split at hpresent
            · rename_i found hlocate
              cases found with
              | directory place => exact ⟨place, hlocate⟩
              | file place text => cases Except.ok.inj hpresent
              | missing place => cases Except.ok.inj hpresent
            · split at hpresent
              · cases Except.ok.inj hpresent
              · cases hpresent
          · cases (Prod.mk.inj h).1
          · cases (Prod.mk.inj h).1

theorem locate_of_makeDirectories {p : Path} (h : t.makeDirectories p disk = (.ok (), t')) :
    ∃ place, t'.locate p = .ok (.directory place) := by
  unfold makeDirectories at h
  rcases makeDirectoriesTo_cases t disk p.parts.length p with hlast | ⟨above, _, _, hmake⟩
  · exact locate_of_makeLast (hlast ▸ h)
  · rw [hmake] at h
    generalize t.makeDirectoriesTo disk above p.parent = attempt at h
    obtain ⟨result, made⟩ := attempt
    cases result with
    | error e => cases (Prod.mk.inj h).1
    | ok v => exact locate_of_makeLast h

/-! ## Writing files -/

/-- Whether or not it fails, a write leaves the tree as it is or puts a file where the path leads
to no directory. -/
theorem write_cases (t : FileTree) (p : Path) (portions : List Portion) (disk : Disk) :
    (t.write p portions disk).2 = t
      ∨ ∃ place text, t.Takes p place
        ∧ (t.write p portions disk).2 = t.insert place (.file text) := by
  rcases write_eq_put t p portions disk with ⟨place, htakes, hput⟩ | ⟨fault, hfail⟩
  · rw [hput, put]
    split
    · exact Or.inl rfl
    · dsimp only
      split
      · exact Or.inr ⟨place, _, htakes, rfl⟩
      · exact Or.inr ⟨place, _, htakes, rfl⟩
  · rw [hfail]
    exact Or.inl rfl

/-- A path that leads to a file, or to where one can be put, leads to the same place in a tree that
has grown. -/
theorem Grows.locate_of_takes (h : t.Grows t') {p : Path} {place : List Text}
    (htakes : t.Takes p place) : t'.locate p = .ok (t'.found place) := by
  rcases htakes with hmissing | ⟨old, hfile⟩
  · rcases h.keeps.locate hmissing with ⟨d, hd, -⟩ | ⟨q, hq, hlocate'⟩
    · cases hd
    · obtain ⟨rfl, -⟩ := found_eq_missing hq.symm
      exact hlocate'
  · rcases h.keeps.locate hfile with ⟨d, hd, -⟩ | ⟨q, hq, hlocate'⟩
    · cases hd
    · obtain ⟨rfl, -⟩ := found_eq_file hq.symm
      exact hlocate'

theorem write_grows (t : FileTree) (p : Path) (portions : List Portion) (disk : Disk) :
    t.Grows (t.write p portions disk).2 := by
  rcases write_cases t p portions disk with hsame | ⟨place, text, htakes, hwritten⟩
  · rw [hsame]
    exact Grows.refl t
  · rw [hwritten]
    exact grows_insert_file htakes.free text

theorem IsWritten.grows {p : Path} {place : List Text} {pieces : List Text}
    (h : IsWritten t p disk place pieces) : t.Grows (t.insert place (.file pieces.flatten)) :=
  grows_insert_file h.takes.free _

theorem IsWritten.locate {p : Path} {place : List Text} {pieces : List Text}
    (h : IsWritten t p disk place pieces) :
    FileTree.locate (t.insert place (.file pieces.flatten)) p
      = .ok (.file place pieces.flatten) := by
  rw [h.grows.locate_of_takes h.takes,
    found_of_file (entry_insert_self t (ne_nil_of_entry h.takes.free) _)]

/-! ## One operation after another -/

theorem perform_grows (t : FileTree) (op : FileOperation) (disk : Disk) :
    t.Grows (t.perform disk op).2 := by
  cases op with
  | makeRoom dir => exact (t.makeDirectories_makesRoom dir disk).grows
  | write file portions => exact t.write_grows file portions disk

end TaskContract.FileTree
