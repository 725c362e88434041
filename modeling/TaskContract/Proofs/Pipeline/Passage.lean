import TaskContract.Proofs.Pipeline.Elsewhere

/-!
# A run at one of its tasks

A successful run comes to each of its tasks in turn. Where the task has no references with computed
names, all that the run does for it is to store its contract, which can be read back, and to deduce
the schemas of the JSON artifacts in it.
-/

namespace TaskContract

section

variable {σ : Type}

/-- The way of a run through one of its tasks: it comes to the task, stores its contract, deduces the
schemas of its artifacts, and goes on to its end. -/
structure PassesThrough (c : Conditions σ) (l : PipelineLocation) (work : List TaskWork)
    (start stop : FileTree × σ) (earlier : List DoneTask) (x : DoneTask) (later : List DoneTask)
    (before stored after : FileTree × σ) : Prop where
  comes : Performs c start
    (DoneTask.courses c l (Run.knownArtifacts work) work.length 0 earlier) before
  stores : Performs c before
    (filedAll [.makeRoom (l.configDir / "analysis"), contractWrite c l x.task]) stored
  deduces : Performs c stored (x.history.map Prod.snd) after
  goesOn : Performs c after
    (DoneTask.courses c l (Run.knownArtifacts work) work.length (earlier.length + 1) later) stop

variable {c : Conditions σ} {l : PipelineLocation} {w w' : World σ} {s : Summary}
  {work : List TaskWork} {xs earlier later : List DoneTask} {x : DoneTask}

theorem TaskAnswers.artifacts_of_resolved {b : TaskAnswers}
    (hwrites : b.work.contract.unresolvedWrites = []) :
    b.artifacts c = b.work.contract.writes.filter fun a => isJsonArtifact a.fileName := by
  rw [artifacts, adoptedWrites, hwrites]
  exact congrArg _ (List.append_nil _)

theorem DoneTask.begun_of_resolved {known : List Text}
    (hreads : x.task.contract.unresolvedReads = []) (hwrites : x.task.contract.unresolvedWrites = []) :
    x.begun c l known
      = filedAll [.makeRoom (l.configDir / "analysis"), contractWrite c l x.task] := by
  rw [begun, TaskAnswers.resolutions, show x.answers.work.contract.unresolvedReads = [] from hreads,
    show x.answers.work.contract.unresolvedWrites = [] from hwrites]
  exact List.append_nil _

theorem SucceededBy.passesThrough (h : SucceededBy c l w w' s work xs)
    (hxs : xs = earlier ++ x :: later) (hreads : x.task.contract.unresolvedReads = [])
    (hwrites : x.task.contract.unresolvedWrites = []) :
    ∃ before stored after, PassesThrough c l work (w.files, w.client) (w'.files, w'.client)
      earlier x later before stored after := by
  obtain ⟨_, hcourses, hend⟩ := h.succeeded.passes.performs.told_inv.append_inv
  obtain rfl := hend.told_inv.nil_inv
  rw [hxs, DoneTask.courses_append, DoneTask.courses, Nat.zero_add] at hcourses
  obtain ⟨before, hearlier, hcourses⟩ := hcourses.append_inv
  obtain ⟨_, hcourse, hlater⟩ := hcourses.append_inv
  obtain ⟨after, hacts, hend⟩ := hcourse.told_inv.append_inv
  obtain rfl := hend.told_inv.nil_inv
  rw [DoneTask.acts, DoneTask.begun_of_resolved hreads hwrites] at hacts
  obtain ⟨stored, hcontract, hdeductions⟩ := hacts.append_inv
  exact ⟨before, stored, _, hearlier, hcontract, hdeductions, hlater⟩

theorem PassesThrough.isThere {before stored after : FileTree × σ}
    (h : PassesThrough c l work (w.files, w.client) (w'.files, w'.client) earlier x later
      before stored after) (hsucceeded : SucceededBy c l w w' s work xs) : l.IsThere stored.1 :=
  ((isThere_of_prepared hsucceeded.succeeded.prepared).mono h.comes.grows).mono h.stores.grows

/-! ## The stored contract -/

theorem analyzeTask_of_prepared {files : FileTree} (h : Run.prepared l files = .ok work) :
    ∀ t ∈ work, analyzeTask (sourceOf t.file t.code) = .ok t.contract := by
  intro t ht
  unfold Run.prepared at h
  split at h
  · cases h
  · obtain ⟨task, -, hread⟩ := mem_of_mapM h ht
    unfold PipelineLocation.readTask at hread
    split at hread
    · cases hread
    · split at hread
      · cases hread
      · split at hread
        · cases hread
        · rename_i hanalyze
          obtain rfl := Except.ok.inj hread
          exact hanalyze

/-- The contract that a run stores for a task is found in its file and can be read back. -/
theorem SucceededBy.contract_stored (h : SucceededBy c l w w' s work xs) (hx : x ∈ xs)
    (hsize : x.task.code.length + 1 < 10 ^ Json.digitLimit) {before stored : FileTree × σ}
    (hperforms : Performs c before
      (filedAll [.makeRoom (l.configDir / "analysis"), contractWrite c l x.task]) stored) :
    ∃ place text, stored.1.locate (ContractFile.path l.configDir x.task.task)
        = .ok (.file place text)
      ∧ (∀ name ∈ x.task.contract.fileNames, name.isScalar = true)
      ∧ x.task.contract.IsReadFrom x.task.file.text c.now (Text.unifyLineEnds text) := by
  have hwork : x.task ∈ work := h.tasks.tasks ▸ List.mem_map_of_mem hx
  have hanalyze := analyzeTask_of_prepared h.succeeded.prepared x.task hwork
  have hchars : (sourceOf x.task.file x.task.code).chars.length ≤ x.task.code.length :=
    List.length_filterMap_le _ _
  have hleaves := hperforms.leaves (areWhole_filedAll _)
  rw [opsOf_filedAll] at hleaves
  obtain ⟨place, pieces, old, hpieces, hencodable, hlocate, hput⟩ :=
    (hleaves.repeats _ (List.mem_cons_of_mem _ (List.mem_singleton_self _))).write
  obtain ⟨-, rfl⟩ := Json.filePieces_of_portions hpieces
  have hscalar := Json.filePieces_encodable_iff.mp hencodable
  rw [Contract.stamped_eq] at hscalar
  have hnames := Contract.isScalar_of_stamped hscalar
  have hlast : FileTree.lastText (stored.1.putsOf
      [.makeRoom (l.configDir / "analysis"), contractWrite c l x.task]) place = some _ :=
    FileTree.lastText_eq_some
      (List.mem_cons_of_mem _ (List.mem_singleton.mpr hput.symm)) fun other hother => by
        rcases List.mem_cons.mp hother with hother | hother
        · cases hother
        · have hsame := (List.mem_singleton.mp hother).trans hput
          exact (Prod.mk.inj (Option.some.inj hsame)).2
  have hentry := hleaves.entry_of_lastText hlast
  rw [FileTree.entry_of_file hlocate, Contract.stamped_eq] at hentry
  obtain rfl := Entry.file.inj (Option.some.inj hentry)
  exact ⟨place, _, hlocate, fun name hname => hnames name (List.mem_cons_of_mem _ hname),
    Contract.isReadFrom_stamped hanalyze (by omega) hscalar⟩

end

/-! ## Names in the code -/

theorem Text.isScalar_stem {t : Text} (h : t.isScalar = true) :
    (Path.ofText t).stem.isScalar = true := by
  rw [Text.isScalar, List.all_eq_true] at h ⊢
  have hname : ∀ ch ∈ (Path.ofText t).name, ch ∈ t := by
    intro ch hch
    rw [Path.name, Path.ofText] at hch
    cases hlast : (Path.namesOf t).getLast? with
    | none =>
        rw [hlast] at hch
        cases hch
    | some last =>
        rw [hlast] at hch
        have hpiece := (List.mem_filter.mp (List.mem_of_getLast? hlast)).1
        exact Text.mem_of_mem_splitOn hpiece hch
  intro ch hch
  refine h ch (hname ch ?_)
  rw [Path.stem, Path.stemOf] at hch
  split at hch
  · split at hch
    · exact List.mem_of_mem_take hch
    · exact hch
  · exact hch

theorem keptBase_of_isScalar {artifact : Text} (h : artifact.isScalar = true) :
    keptBase artifact = (Path.ofText artifact).stem := by
  rw [keptBase, FileName.kept, Text.isScalar_stem h, Bool.not_true, Bool.and_false]
  rfl

theorem DoneTask.spellsAlike_of_isScalar {σ : Type} {c : Conditions σ} {x : DoneTask}
    (h : ∀ a ∈ x.answers.artifacts c, a.fileName.isScalar = true) (artifact : Text) :
    x.SpellsAlike c artifact := by
  intro a ha b hb hbase hbase'
  rw [← keptBase_of_isScalar (h a ha), ← keptBase_of_isScalar (h b hb), hbase, hbase']

end TaskContract
