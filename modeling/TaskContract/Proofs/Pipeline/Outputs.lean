import TaskContract.Proofs.Files.Growth
import TaskContract.Proofs.Pipeline.Success
import TaskContract.Proofs.Store.ContractFile

/-!
# What a successful run changes

A run reads its list of tasks from the directory of the pipeline, so that directory is there. What
a successful run makes then are the two directories of the store, and files with endings of its own.
-/

namespace TaskContract

/-! ## Room beside a file -/

namespace FileTree

variable {t t' : FileTree} {disk : Disk}

/-- A directory that has been made where there was room for it is the only one. -/
theorem Offers.of_makeDirectories {dir : Path} {place : List Text} (h : t.Offers dir place)
    (hmake : t.makeDirectories dir disk = (.ok (), t')) :
    t'.locate dir = .ok (.directory place) ∧ ∀ q, q ≠ place → t'.entry? q = t.entry? q := by
  rcases h with hdir | hmissing
  · rw [makeDirectories_of_directory hdir] at hmake
    obtain rfl := (Prod.mk.inj hmake).2
    exact ⟨hdir, fun _ _ => rfl⟩
  · -- the device does it, or it would fail
    have hmade : t.makeDirectories dir disk = t.makeDirectories dir := by
      have hone : t.makeDirectory dir = .ok (t.insert place .directory) := by
        rw [makeDirectory, hmissing]
      cases hfault : disk.making place with
      | none =>
          have hone' : t.makeDirectory dir disk = .ok (t.insert place .directory) := by
            rw [makeDirectory, hmissing]
            dsimp only
            rw [hfault]
          rw [FileTree.makeDirectories, FileTree.makeDirectories]
          cases dir.parts.length with
          | zero | succ n => rw [makeDirectoriesTo, makeDirectoriesTo, hone, hone']
      | some f =>
          have hone' : t.makeDirectory dir disk = .error (.device f) := by
            rw [makeDirectory, hmissing]
            dsimp only
            rw [hfault]
          have hfails : t.unlessPresent dir (.device f) = (fail dir (.device f), t) := by
            rw [unlessPresent, isDirectory, test, hmissing]
            rfl
          have hfail : t.makeDirectories dir disk = (fail dir (.device f), t) := by
            rw [FileTree.makeDirectories, ← hfails]
            cases dir.parts.length with
            | zero | succ n =>
                rw [makeDirectoriesTo, hone']
                rfl
          rw [hfail] at hmake
          cases (Prod.mk.inj hmake).1
    obtain ⟨made, hmake', -, hdir, hframe⟩ := Offers.makeDirectories (Or.inr hmissing)
    rw [hmade, hmake'] at hmake
    obtain rfl := (Prod.mk.inj hmake).2
    exact ⟨hdir, hframe⟩

/-- A directory that has been made beside something that can be looked up was there, or was made in
the directory around it. -/
theorem offers_beside {dir : Path} {name name' : Text} (hname : Path.IsName name)
    (hname' : Path.IsName name') (hlength : (FileName.bytes name').length ≤ nameLimit) {x : Found}
    (h : t.locate (dir.child name) = .ok x)
    (hmake : t.makeDirectories (dir.child name') disk = (.ok (), t')) :
    ∃ d, t.Offers (dir.child name') (d ++ [FileName.kept name']) := by
  obtain ⟨place, hdir⟩ := locate_of_makeDirectories hmake
  obtain ⟨d, _, hlocate⟩ := locate_sibling hname hname' h (locate_eq_ok hdir).1 hlength
  refine ⟨d, ?_⟩
  cases hentry : t.entry? (d ++ [FileName.kept name']) with
  | none =>
      right
      rw [hlocate, found, hentry]
  | some entry =>
      cases entry with
      | directory =>
          left
          rw [hlocate, found, hentry]
      | file text =>
          -- a file would have been in the way
          rw [found_of_file hentry] at hlocate
          have hroom := t.makeDirectories_makesRoom (dir.child name') disk
          rw [hmake] at hroom
          have hlocate' := hroom.grows.locate_of_takes (Or.inr ⟨text, hlocate⟩)
          obtain ⟨text', htext'⟩ := hroom.grows.file _ _ hentry
          rw [hdir, found_of_file htext'] at hlocate'
          cases Except.ok.inj hlocate'

theorem Takes.exists_locate {p : Path} {place : List Text} (h : t.Takes p place) :
    ∃ x, t.locate p = .ok x := by
  rcases h with h | ⟨text, h⟩
  · exact ⟨_, h⟩
  · exact ⟨_, h⟩

/-- A file stands under the last name of its path. -/
theorem place_last {p : Path} {front : List Text} {name : Text} (hparts : p.parts = front ++ [name])
    (hname : Path.IsName name) {place : List Text} (h : t.Takes p place) :
    ∃ d, place = d ++ [FileName.kept name] := by
  rcases h with hmissing | ⟨text, hfile⟩
  · obtain ⟨d, _, _, hfound⟩ := locate_last hparts hname hmissing
    exact ⟨d, (found_eq_missing hfound.symm).1.symm⟩
  · obtain ⟨d, _, _, hfound⟩ := locate_last hparts hname hfile
    exact ⟨d, (found_eq_file hfound.symm).1.symm⟩

end FileTree

/-! ## Names of a run's own -/

def outputEndings : List Text :=
  Text.ofString ".analysis.json" :: endings

inductive IsOutput : Text → Prop where
  | analysis : IsOutput (Text.ofString "analysis")
  | schemas : IsOutput (Text.ofString "schemas")
  | file (base : Text) {e : Text} (ending : e ∈ outputEndings) : IsOutput (base ++ e)

/-- The path of a contract ends in a name of the run's own, whatever the task is. -/
theorem ContractFile.path_parts (pipeline : Path) (task : Text) :
    ∃ front base, CodePoint.ofChar '/' ∉ base
      ∧ (ContractFile.path pipeline task).parts
        = front ++ [base ++ Text.ofString ".analysis.json"] := by
  have hending : Path.IsEnding (Text.ofString ".analysis.json") := ⟨by decide, by decide⟩
  obtain ⟨root, front, base, hbase, hpath, _⟩ :=
    Path.div_append (pipeline / "analysis") task hending
  refine ⟨front, base, hbase, ?_⟩
  show Path.parts (Path.append _ (Path.ofText (task ++ Text.ofString ".analysis.json"))) = _
  rw [hpath]

theorem isName_list : Path.IsName (Text.ofString "pipeline.json") :=
  ⟨by decide, by decide, by decide, by decide⟩

theorem isName_analysis : Path.IsName (Text.ofString "analysis") :=
  ⟨by decide, by decide, by decide, by decide⟩

/-- The name under which the schema of an artifact is kept, without the endings of the files. -/
def keptBase (artifact : Text) : Text :=
  FileName.kept (Path.ofText artifact).stem

/-- Is the list of the tasks in reach, so that the directory of the pipeline is there? -/
def PipelineLocation.IsThere (l : PipelineLocation) (t : FileTree) : Prop :=
  ∃ x, t.locate (l.configDir.child (Text.ofString "pipeline.json")) = .ok x

theorem PipelineLocation.listFile_eq (l : PipelineLocation) :
    l.listFile = l.configDir.child (Text.ofString "pipeline.json") :=
  Path.div_eq_child _ isName_list

theorem PipelineLocation.IsThere.mono {l : PipelineLocation} {t t' : FileTree} (h : l.IsThere t)
    (hgrows : t.Grows t') : l.IsThere t' := by
  obtain ⟨x, hx⟩ := h
  rcases hgrows.keeps.locate hx with ⟨d, _, hd⟩ | ⟨q, _, hq⟩
  · exact ⟨_, hd⟩
  · exact ⟨_, hq⟩

/-! ## One operation -/

section

variable {σ : Type} {c : Conditions σ} {l : PipelineLocation} {t t' : FileTree} {disk : Disk}
  {task : TaskWork} {name : Text} {op : FileOperation} {place : List Text}

/-- What is stored for a contract changes one file, with an ending of its own, or its directory. -/
theorem OfContract.changes (hop : OfContract c l task op) (hthere : l.IsThere t)
    (h : t.perform disk op = (.ok (), t')) (q : List Text) :
    t'.entry? q = t.entry? q ∨ (∃ d, q = d ++ [Text.ofString "analysis"])
      ∨ ∃ d base, q = d ++ [base ++ Text.ofString ".analysis.json"] := by
  obtain ⟨x, hlist⟩ := hthere
  rcases hop with rfl | rfl
  · have hmake : t.makeDirectories (l.configDir / "analysis") disk = (.ok (), t') := h
    rw [ContractFile.analysis_eq_child] at hmake
    obtain ⟨d, hoffers⟩ :=
      FileTree.offers_beside isName_list isName_analysis (by decide) hlist hmake
    by_cases hq : q = d ++ [Text.ofString "analysis"]
    · exact Or.inr (Or.inl ⟨d, hq⟩)
    · exact Or.inl ((hoffers.of_makeDirectories hmake).2 q hq)
  · obtain ⟨place, pieces, -, hwritten, rfl⟩ := FileTree.write_eq_ok h
    obtain ⟨front, base, hbase, hparts⟩ := ContractFile.path_parts l.configDir task.task
    obtain ⟨d, rfl⟩ := FileTree.place_last hparts
      (Path.isName_append hbase (by decide) (by decide)) hwritten.takes
    rw [FileName.kept_append base (by decide)]
    by_cases hq : q = d ++ [FileName.kept base ++ Text.ofString ".analysis.json"]
    · exact Or.inr (Or.inr ⟨d, FileName.kept base, hq⟩)
    · exact Or.inl (FileTree.entry_insert_of_ne t hq _)

theorem ofSchema_iff : OfSchema l name op ↔ op = .makeRoom (l.configDir / "schemas")
    ∨ ∃ e ∈ endings, ∃ portions,
      op = .write ((l.configDir / "schemas").child ((Path.ofText name).stem ++ e)) portions := by
  rw [OfSchema, parent_schemas, SchemaPaths.ofArtifact_eq]
  simp only [SchemaPaths.toList, endings, List.exists_mem_cons_iff, List.not_mem_nil, false_and,
    exists_false, or_false]

/-- The directory of the schemas, which is there or can be made. -/
theorem OfSchema.offers (hop : OfSchema l name op) (hthere : l.IsThere t)
    (h : t.perform disk op = (.ok (), t')) :
    ∃ d, t.Offers (l.configDir / "schemas") (d ++ [Text.ofString "schemas"]) := by
  obtain ⟨x, hlist⟩ := hthere
  rw [schemas_eq_child]
  rcases ofSchema_iff.mp hop with rfl | ⟨e, he, portions, rfl⟩
  · have hmake : t.makeDirectories (l.configDir / "schemas") disk = (.ok (), t') := h
    rw [schemas_eq_child] at hmake
    exact FileTree.offers_beside isName_list isName_schemas (by decide) hlist hmake
  · obtain ⟨q, pieces, -, hwritten, -⟩ := FileTree.write_eq_ok h
    obtain ⟨y, hy⟩ := hwritten.takes.exists_locate
    rw [schemas_eq_child] at hy
    obtain ⟨dir, hdir, -, -⟩ := FileTree.directory_of_child isName_schemas
      (isName_ending (Path.noSlash_stem name) he) hy
    obtain ⟨d, -, hsibling⟩ := FileTree.locate_sibling isName_list isName_schemas hlist
      (FileTree.locate_eq_ok hdir).1 (by decide)
    refine ⟨d, Or.inl ?_⟩
    rw [hdir] at hsibling ⊢
    rw [hsibling, FileTree.found_of_directory (FileTree.found_eq_directory
      (Except.ok.inj hsibling).symm)]
    rfl

/-- What is stored for a schema changes the files of its base name, or their directory. -/
theorem OfSchema.frame (hop : OfSchema l name op)
    (hoffers : t.Offers (l.configDir / "schemas") place)
    (h : t.perform disk op = (.ok (), t')) :
    t'.Offers (l.configDir / "schemas") place
      ∧ ∀ q, q ≠ place → (∀ e ∈ endings, q ≠ place ++ [keptBase name ++ e]) →
        t'.entry? q = t.entry? q := by
  rcases ofSchema_iff.mp hop with rfl | ⟨e, he, portions, rfl⟩
  · obtain ⟨hdir, hframe⟩ := hoffers.of_makeDirectories h
    exact ⟨Or.inl hdir, fun q hq _ => hframe q hq⟩
  · have hname := isName_ending (Path.noSlash_stem name) he
    obtain ⟨place', pieces, -, hwritten, rfl⟩ := FileTree.write_eq_ok h
    obtain ⟨y, hy⟩ := hwritten.takes.exists_locate
    rw [schemas_eq_child] at hy hwritten hoffers ⊢
    obtain ⟨dir, hdir, -, -⟩ := FileTree.directory_of_child isName_schemas hname hy
    have hplace : dir = place := by
      rcases hoffers with hoffers | hoffers
      · exact FileTree.Found.directory.inj (Except.ok.inj (hdir.symm.trans hoffers))
      · rw [hdir] at hoffers
        cases Except.ok.inj hoffers
    subst hplace
    obtain ⟨rfl, -, -⟩ := hwritten.takes.of_name isName_schemas hdir hname
    refine ⟨Or.inl (hwritten.grows.keeps.locate_directory hdir), fun q _ hq => ?_⟩
    rw [kept_ending he]
    exact FileTree.entry_insert_of_ne t (hq e he) _

theorem OfSchema.place_of_put (hop : OfSchema l name op) {q : List Text} {text : Text}
    (h : t.putOf op = some (q, text)) :
    ∃ place, t.locate (l.configDir / "schemas") = .ok (.directory place)
      ∧ ∃ e ∈ endings, q = place ++ [keptBase name ++ e] := by
  obtain ⟨file, portions, old, rfl, hlocate, -⟩ := FileTree.of_putOf h
  rcases ofSchema_iff.mp hop with hop | ⟨e, he, _, hop⟩
  · cases hop
  · obtain ⟨rfl, -⟩ := FileOperation.write.inj hop
    rw [schemas_eq_child] at hlocate ⊢
    obtain ⟨place, hdir, -, hfound⟩ := FileTree.directory_of_child isName_schemas
      (isName_ending (Path.noSlash_stem name) he) hlocate
    refine ⟨place, hdir, e, he, ?_⟩
    rw [← (FileTree.found_eq_file hfound.symm).1, kept_ending he]
    rfl

end

/-! ## Runs -/

/-- Do the trees differ under names of a run's own only? -/
def ChangesOutputs (t t' : FileTree) : Prop :=
  ∀ q, t'.entry? q = t.entry? q ∨ ∃ d name, q = d ++ [name] ∧ IsOutput name

theorem ChangesOutputs.refl (t : FileTree) : ChangesOutputs t t :=
  fun _ => Or.inl rfl

theorem ChangesOutputs.trans {t t' t'' : FileTree} (h : ChangesOutputs t t')
    (h' : ChangesOutputs t' t'') : ChangesOutputs t t'' := by
  intro q
  rcases h' q with hsame | hchanged
  · rw [hsame]
    exact h q
  · exact Or.inr hchanged

section

variable {σ : Type} {c : Conditions σ} {l : PipelineLocation}

def Stores (c : Conditions σ) (l : PipelineLocation) (op : FileOperation) : Prop :=
  (∃ t, OfContract c l t op) ∨ ∃ name, OfSchema l name op

theorem Stores.changes {op : FileOperation} {t t' : FileTree} {disk : Disk} (hop : Stores c l op)
    (hthere : l.IsThere t) (h : t.perform disk op = (.ok (), t')) : ChangesOutputs t t' := by
  intro q
  rcases hop with ⟨task, hop⟩ | ⟨name, hop⟩
  · rcases hop.changes hthere h q with hsame | ⟨d, hq⟩ | ⟨d, base, hq⟩
    · exact Or.inl hsame
    · exact Or.inr ⟨d, _, hq, .analysis⟩
    · exact Or.inr ⟨d, _, hq, .file base List.mem_cons_self⟩
  · obtain ⟨d, hoffers⟩ := hop.offers hthere h
    by_cases hroom : q = d ++ [Text.ofString "schemas"]
    · exact Or.inr ⟨d, _, hroom, .schemas⟩
    · by_cases hfile : ∃ e ∈ endings, q = d ++ [Text.ofString "schemas"] ++ [keptBase name ++ e]
      · obtain ⟨e, he, hq⟩ := hfile
        exact Or.inr ⟨_, _, hq, .file _ (List.mem_cons_of_mem _ he)⟩
      · exact Or.inl ((hop.frame hoffers h).2 q hroom fun e he hq => hfile ⟨e, he, hq⟩)

/-- Operations that store contracts and schemas change outputs only. -/
theorem Performs.changes {start stop : FileTree × σ} {acts : List Act}
    (h : Performs c start acts stop) (hthere : l.IsThere start.1) (hwhole : AreWhole acts)
    (hstores : ∀ op ∈ opsOf acts, Stores c l op) : ChangesOutputs start.1 stop.1 := by
  induction h with
  | nil start => exact .refl start.1
  | told _ _ ih | asked _ _ ih => exact ih hthere (List.forall_mem_cons.mp hwhole).2 hstores
  | @filed files state acts stop op result ending _ ih =>
      obtain ⟨hact, hothers⟩ := List.forall_mem_cons.mp hwhole
      obtain ⟨hop, hrest⟩ := List.forall_mem_cons.mp hstores
      cases result with
      | error e => cases hact
      | ok _ =>
          have hgrows := files.perform_grows op c.disk
          exact (hop.changes hthere (Prod.ext ending rfl)).trans
            (ih (hthere.mono hgrows) hothers hrest)

theorem DoneTask.IsDone.stores {known : List Text} {total : Nat} {x : DoneTask}
    (h : x.IsDone c l total) : ∀ op ∈ opsOf (x.acts c l known), Stores c l op := by
  intro op hop
  rw [DoneTask.acts, DoneTask.begun, opsOf_append, opsOf_append, opsOf_filedAll, opsOf_asksOf,
    List.append_nil] at hop
  rcases List.mem_append.mp hop with hop | hop
  · left
    rcases List.mem_cons.mp hop with rfl | hop
    · exact ⟨x.task, Or.inl rfl⟩
    · exact ⟨x.task, Or.inr (List.mem_singleton.mp hop)⟩
  · obtain ⟨_, a, _, _, -, hwork, hmem, -⟩ := h.of_mem_opsOf hop
    exact Or.inr ⟨a.fileName, ofSchema_of_mem hwork op hmem⟩

theorem DoneTask.stores_courses {known : List Text} {total tasks index : Nat} {xs : List DoneTask}
    (h : ∀ x ∈ xs, x.IsDone c l total) :
    ∀ op ∈ opsOf (courses c l known tasks index xs), Stores c l op := by
  induction xs generalizing index with
  | nil => exact List.forall_mem_nil _
  | cons x rest ih =>
      obtain ⟨hx, hrest⟩ := List.forall_mem_cons.mp h
      rw [courses, opsOf_append]
      refine List.forall_mem_append.mpr ⟨?_, ih hrest⟩
      show ∀ op ∈ opsOf (x.acts c l known ++ [_]), Stores c l op
      rw [opsOf_append]
      exact List.forall_mem_append.mpr ⟨hx.stores, List.forall_mem_nil _⟩

theorem SucceededBy.stores {w w' : World σ} {s : Summary} {work : List TaskWork}
    {xs : List DoneTask} (h : SucceededBy c l w w' s work xs) :
    ∀ op ∈ opsOf (runActs c l work s xs), Stores c l op := by
  rw [opsOf_runActs]
  exact DoneTask.stores_courses h.tasks.done

end

end TaskContract
