import TaskContract.Proofs.Pipeline.Order
import TaskContract.Proofs.Store.ContractFile

/-!
# Where a run writes

Every write of a run is one of a contract or of a schema. The files of a schema are named for the
stem of an artifact, so they are in the directory `schemas` whatever the name of the artifact is.
The file of a contract is named for the whole of a task, so it is in the directory `analysis` if the
name of the task has no slash; otherwise the path that the name spells decides where it is.
-/

namespace TaskContract

variable {σ : Type}

/-! ## What acts change -/

def FileTree.HasFileAt (t : FileTree) (file : Path) (place : List Text) : Prop :=
  ∃ text, t.locate file = .ok (.file place text)

theorem FileTree.Grows.hasFileAt_of_entry {t t' : FileTree} (h : t.Grows t') {file : Path}
    {place : List Text} {text : Text} (htakes : t.Takes file place)
    (hentry : t'.entry? place = some (.file text)) : t'.HasFileAt file place :=
  ⟨text, by rw [h.locate_of_takes htakes, FileTree.found_of_file hentry]⟩

namespace Performs

variable {c : Conditions σ} {start stop : FileTree × σ} {acts : List Act}

/-- A place whose entry is changed by some acts has a new directory, or the file of a path that
has been written. -/
theorem changed (h : Performs c start acts stop) (place : List Text) :
    FileTree.entry? stop.1 place = FileTree.entry? start.1 place
      ∨ (FileTree.entry? start.1 place = none ∧ FileTree.entry? stop.1 place = some .directory)
      ∨ ∃ file portions result, .filed (.write file portions) result ∈ acts
        ∧ stop.1.HasFileAt file place := by
  induction h with
  | nil start => exact Or.inl rfl
  | told e _ ih | asked _ _ ih =>
      rcases ih with hsame | hnew | ⟨file, portions, result, hmem, hfile⟩
      · exact Or.inl hsame
      · exact Or.inr (Or.inl hnew)
      · exact Or.inr (Or.inr ⟨file, portions, result, List.mem_cons_of_mem _ hmem, hfile⟩)
  | @filed files _ _ stop op _ _ rest ih =>
      cases op with
      | makeRoom directory =>
          have hroom := files.makeDirectories_makesRoom directory c.disk
          rcases ih with hsame | ⟨hnone, hdir⟩ | ⟨file, portions, result, hmem, hfile⟩
          · rw [hsame]
            rcases hroom.entry place with heq | hnew
            · exact Or.inl heq
            · exact Or.inr (Or.inl hnew)
          · exact Or.inr (Or.inl ⟨hroom.grows.absent hnone, hdir⟩)
          · exact Or.inr (Or.inr ⟨file, portions, result, List.mem_cons_of_mem _ hmem, hfile⟩)
      | write file portions =>
          have hwrite := files.write_grows file portions c.disk
          rcases ih with hsame | ⟨hnone, hdir⟩ | ⟨file', portions', result, hmem, hfile⟩
          · rw [hsame]
            rcases files.write_cases file portions c.disk with
              hunwritten | ⟨q, text, htakes, hwritten⟩
            · exact Or.inl (congrArg (FileTree.entry? · place) hunwritten)
            · by_cases hq : place = q
              · -- the entry is the one that this write has left here
                subst hq
                have hne := FileTree.ne_nil_of_entry htakes.free
                have hentry : FileTree.entry? stop.1 place = some (.file text) :=
                  hsame.trans ((congrArg (FileTree.entry? · place) hwritten).trans
                    (FileTree.entry_insert_self files hne _))
                exact Or.inr (Or.inr ⟨file, portions, _, List.mem_cons_self,
                  (hwrite.trans rest.grows).hasFileAt_of_entry htakes hentry⟩)
              · exact Or.inl ((congrArg (FileTree.entry? · place) hwritten).trans
                  (FileTree.entry_insert_of_ne files hq _))
          · exact Or.inr (Or.inl ⟨hwrite.absent hnone, hdir⟩)
          · exact Or.inr (Or.inr ⟨file', portions', result, List.mem_cons_of_mem _ hmem, hfile⟩)

end Performs

/-! ## The paths of a run -/

def PipelineLocation.Lists (l : PipelineLocation) (files : FileTree) (task : Text) : Prop :=
  ∃ tasks, l.tasks files = .ok tasks ∧ task ∈ tasks

/-- A path that a run may write: that of a file in one of the two directories of the store, or that
of the contract of a task whose name has a slash. -/
inductive IsStorePath (l : PipelineLocation) (files : FileTree) : Path → Prop where
  | schema {name : Text} (isName : Path.IsName name) :
      IsStorePath l files ((l.configDir / "schemas").child name)
  | analysis {name : Text} (isName : Path.IsName name) :
      IsStorePath l files ((l.configDir / "analysis").child name)
  | elsewhere {task : Text} (lists : l.Lists files task) (slash : CodePoint.ofChar '/' ∈ task) :
      IsStorePath l files (ContractFile.path l.configDir task)

theorem isStorePath_contract {l : PipelineLocation} {files : FileTree} {task : Text}
    (h : l.Lists files task) : IsStorePath l files (ContractFile.path l.configDir task) := by
  by_cases hslash : CodePoint.ofChar '/' ∈ task
  · exact .elsewhere h hslash
  · rw [ContractFile.path_eq _ hslash, ← ContractFile.analysis_eq_child]
    exact .analysis (ContractFile.isName_fileName hslash)

theorem isStorePath_schema (l : PipelineLocation) (files : FileTree) (artifact : Text) :
    ∀ file ∈ (SchemaPaths.ofArtifact l.configDir artifact).toList, IsStorePath l files file := by
  have hname : ∀ e ∈ endings, Path.IsName ((Path.ofText artifact).stem ++ e) := fun e he =>
    isName_ending (Path.noSlash_stem artifact) he
  rw [SchemaPaths.ofArtifact_eq]
  intro file hfile
  simp only [SchemaPaths.toList, List.mem_cons, List.not_mem_nil, or_false] at hfile
  rcases hfile with rfl | rfl | rfl
  · exact .schema (hname _ (by decide))
  · exact .schema (hname _ (by decide))
  · exact .schema (hname _ (by decide))

theorem Concerns.isStorePath {c : Conditions σ} {l : PipelineLocation} {known : List Text}
    {t : TaskWork} {files : FileTree} (hlisted : l.Lists files t.task) {file : Path}
    {portions : List Portion} {whole : Bool}
    (h : Concerns c l known t (.filed (.write file portions) whole)) :
    IsStorePath l files file := by
  cases h with
  | contract stores _ =>
      rcases stores with hroom | hwrite
      · cases hroom
      · obtain ⟨rfl, -⟩ := FileOperation.write.inj hwrite
        exact isStorePath_contract hlisted
  | schema a _ stores _ =>
      rcases stores with hroom | ⟨_, hmem, _, hwrite⟩
      · cases hroom
      · obtain ⟨rfl, -⟩ := FileOperation.write.inj hwrite
        exact isStorePath_schema l files a.fileName _ hmem

section

variable {c : Conditions σ} {l : PipelineLocation}

theorem InParts.exists_task {known : List Text} {tasks index : Nat} {work : List TaskWork}
    {told : List Event} {parts : List (List Deed)}
    (h : InParts c l known tasks index work told parts) {d : Deed} (hd : d ∈ parts.flatten) :
    ∃ t ∈ work, Concerns c l known t d := by
  obtain ⟨part, hpart, hd⟩ := List.mem_flatten.mp hd
  obtain ⟨i, hi⟩ := List.getElem?_of_mem hpart
  have hlt : i < work.length :=
    Nat.lt_of_lt_of_le (List.getElem?_eq_some_iff.mp hi).1 h.listed
  exact ⟨work[i], List.getElem_mem hlt,
    h.concerns i _ part (List.getElem?_eq_getElem hlt) hi d hd⟩

theorem Run.lists_of_prepared {files : FileTree} {work : List TaskWork}
    (h : prepared l files = .ok work) : ∀ t ∈ work, l.Lists files t.task :=
  fun _ ht => ⟨_, prepared_spec h, List.mem_map_of_mem ht⟩

theorem ReportedCourse.isStorePath {files : FileTree} {r : Except Trouble Summary}
    {acts : List Act} (h : ReportedCourse c l files r acts) {file : Path}
    {portions : List Portion} {result : Except FileError Unit}
    (hmem : .filed (.write file portions) result ∈ acts) : IsStorePath l files file := by
  have hcourse : ∀ {work : List TaskWork} {r : Except Trouble Summary} {acts : List Act},
      Run.prepared l files = .ok work → RunCourse c l work r acts →
      .filed (.write file portions) result ∈ acts → IsStorePath l files file := by
    intro work r acts hprepared hcourse hmem
    obtain ⟨parts, hparts, hin⟩ := hcourse.inParts
    have hdeed : .filed (.write file portions) result.isOk ∈ acts.filterMap Act.deed? :=
      List.mem_filterMap.mpr ⟨_, hmem, rfl⟩
    rw [hparts] at hdeed
    obtain ⟨t, ht, hconcerns⟩ := hin.exists_task hdeed
    exact hconcerns.isStorePath (Run.lists_of_prepared hprepared t ht)
  cases h with
  | early _ => cases List.mem_singleton.mp hmem
  | succeeded hprepared course => exact hcourse hprepared course hmem
  | failed hprepared course =>
      rcases List.mem_append.mp hmem with hmem | hmem
      · exact hcourse hprepared course hmem
      · cases List.mem_singleton.mp hmem

/-- What a run does between its start and its end are acts that write paths of the store only. -/
theorem analyzePipeline_passes (c : Conditions σ) (l : PipelineLocation) (w : World σ) :
    ∃ acts, Passes c w acts (analyzePipeline c l w).2
      ∧ ∀ file portions result, .filed (.write file portions) result ∈ acts →
        IsStorePath l w.files file := by
  by_cases hlock : AcquiresLock l w
  · obtain ⟨r, acts, -, hpasses, hcourse⟩ := analyzePipeline_course (c := c) hlock
    exact ⟨acts, hpasses, fun _ _ _ hmem => hcourse.isStorePath hmem⟩
  · obtain ⟨e, he⟩ := analyzePipeline_of_not_acquires (c := c) hlock
    rw [he]
    exact ⟨[], .refl c w, fun _ _ _ hmem => absurd hmem List.not_mem_nil⟩

end

/-! ## Places -/

def FileTree.directoryAt? (t : FileTree) (dir : Path) : Option (List Text) :=
  match t.locate dir with
  | .ok (.directory d) => some d
  | _ => none

def FileTree.IsIn (t : FileTree) (dir : Path) (place : List Text) : Prop :=
  place ≠ [] ∧ t.directoryAt? dir = some place.dropLast

instance (t : FileTree) (dir : Path) (place : List Text) : Decidable (t.IsIn dir place) :=
  inferInstanceAs (Decidable (_ ∧ _))

theorem FileTree.HasFileAt.isIn {t : FileTree} {dir : Path} {inner name : Text}
    (hinner : Path.IsName inner) (hname : Path.IsName name) {place : List Text}
    (h : t.HasFileAt ((dir.child inner).child name) place) : t.IsIn (dir.child inner) place := by
  obtain ⟨text, hlocate⟩ := h
  obtain ⟨d, hdir, _, hfound⟩ := directory_of_child hinner hname hlocate
  obtain ⟨rfl, _⟩ := found_eq_file hfound.symm
  constructor
  · simp
  · rw [directoryAt?, hdir, List.dropLast_concat]

/-- **A run writes into its two directories, but for tasks with a slash.** Whatever the files, the
client, the settings and the observer are, and whether the run fails or not: all that it writes are
paths of the store. Where it has changed an entry there is a new directory, or a file that stands
directly in `schemas` or in `analysis`, or else the contract of a listed task whose name has a
slash, at the place that this name leads to. -/
theorem writes_in_store (c : Conditions σ) (l : PipelineLocation) (w : World σ) :
    ∃ acts, Passes c w acts (analyzePipeline c l w).2
      ∧ (∀ file portions result, .filed (.write file portions) result ∈ acts →
        IsStorePath l w.files file)
      ∧ ∀ place, (analyzePipeline c l w).2.files.entry? place = w.files.entry? place
        ∨ (w.files.entry? place = none
          ∧ (analyzePipeline c l w).2.files.entry? place = some .directory)
        ∨ (analyzePipeline c l w).2.files.IsIn (l.configDir / "schemas") place
        ∨ (analyzePipeline c l w).2.files.IsIn (l.configDir / "analysis") place
        ∨ ∃ task, l.Lists w.files task ∧ CodePoint.ofChar '/' ∈ task
          ∧ (analyzePipeline c l w).2.files.HasFileAt (ContractFile.path l.configDir task)
            place := by
  obtain ⟨acts, hpasses, hpaths⟩ := analyzePipeline_passes c l w
  refine ⟨acts, hpasses, hpaths, ?_⟩
  intro place
  rcases hpasses.performs.changed place with
    hsame | hnew | ⟨file, portions, result, hmem, hfile⟩
  · exact Or.inl hsame
  · exact Or.inr (Or.inl hnew)
  · refine Or.inr (Or.inr ?_)
    cases hpaths file portions result hmem with
    | @schema name hname =>
        rw [schemas_eq_child] at hfile ⊢
        exact Or.inl (hfile.isIn ⟨by decide, by decide, by decide, by decide⟩ hname)
    | @analysis name hname =>
        rw [ContractFile.analysis_eq_child] at hfile ⊢
        exact Or.inr (Or.inl (hfile.isIn ⟨by decide, by decide, by decide, by decide⟩ hname))
    | @elsewhere task hlisted hslash => exact Or.inr (Or.inr ⟨task, hlisted, hslash, hfile⟩)

/-- A task whose name leads out of the directory of the scripts. -/
def dottedTask : FileTree :=
  { entries := [([Text.ofString "p"], .directory),
      ([Text.ofString "p", Text.ofString "pipeline.json"],
        .file (Text.ofString "\x7b\"tasks\":[\"../x\"]\x7d")),
      ([Text.ofString "x.js"], .file (Text.ofString "export function f()\x7b\x7d"))]
    current := [] }

def dottedTaskPlace : List Text :=
  [Text.ofString "p", Text.ofString "x.analysis.json"]

set_option maxRecDepth 100000 in
theorem dottedTask_written :
    let files := (analyzePipeline recordingConditions flatLocation
      { files := dottedTask, client := [] }).2.files
    ((files.entry? dottedTaskPlace).any fun e => e matches .file _) = true
      ∧ ¬ files.IsIn (flatLocation.configDir / "schemas") dottedTaskPlace
      ∧ ¬ files.IsIn (flatLocation.configDir / "analysis") dottedTaskPlace := by
  decide +kernel

/-- The contract of such a task is written outside of both directories. -/
theorem dottedTask_elsewhere : ∃ task, flatLocation.Lists dottedTask task
    ∧ CodePoint.ofChar '/' ∈ task
    ∧ (analyzePipeline recordingConditions flatLocation
      { files := dottedTask, client := [] }).2.files.HasFileAt
        (ContractFile.path flatLocation.configDir task) dottedTaskPlace := by
  obtain ⟨hfile, hschemas, hanalysis⟩ := dottedTask_written
  obtain ⟨_, _, _, hchanged⟩ :=
    writes_in_store recordingConditions flatLocation { files := dottedTask, client := [] }
  have habsent : dottedTask.entry? dottedTaskPlace = none := rfl
  rcases hchanged dottedTaskPlace with hsame | ⟨_, hdir⟩ | hin | hin | helsewhere
  · rw [hsame, habsent] at hfile
    cases hfile
  · rw [hdir] at hfile
    cases hfile
  · exact absurd hin hschemas
  · exact absurd hin hanalysis
  · exact helsewhere

end TaskContract
