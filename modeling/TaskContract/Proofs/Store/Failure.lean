import TaskContract.Proofs.Files.Growth
import TaskContract.Proofs.Store.ContractFile
import TaskContract.Proofs.Store.SchemaFiles

/-!
# Stores that fail

A store checks its data, makes its directory, and then writes its files in place, one after another.
It can fail at each of these: before anything is written, no file changes; afterwards the files
before the one at which it fails are whole, and that one is as it was, or is cut short: where a part
of it has no text or a text no form in UTF-8, or where the system has stopped. No other file changes.
-/

namespace TaskContract

/-! ## One file -/

namespace FileTree

/-- What a failed write leaves of a text: all before the first portion that cannot be written, or
some beginning of that if the system has stopped. -/
inductive IsCut (portions : List Portion) : FileFault → Text → Prop where
  | portion {fault : FileFault} (h : (writable portions).2 = some fault) :
      IsCut portions fault (writable portions).1
  | stopped (f : SystemFault) (length : Nat) :
      IsCut portions (.stopped f) ((writable portions).1.take length)

variable {t t' : FileTree} {disk : Disk} {p : Path} {e : FileError}

/-- A write that fails has done nothing, or it has opened the file and cut it short. -/
theorem write_eq_error {portions : List Portion} (h : t.write p portions disk = (.error e, t')) :
    e.path = p ∧ (t' = t ∨ ∃ place cut, t.Takes p place ∧ IsCut portions e.fault cut
      ∧ t' = t.insert place (.file cut)) := by
  rcases write_eq_put t p portions disk with ⟨place, htakes, hput⟩ | ⟨fault, hfail⟩
  · rw [hput, put] at h
    split at h
    case h_1 =>
      obtain ⟨herror, rfl⟩ := Prod.mk.inj h
      obtain rfl := Except.error.inj herror
      exact ⟨rfl, Or.inl rfl⟩
    case h_2 =>
      dsimp only at h
      split at h
      case h_1 f length _ =>
        obtain ⟨herror, rfl⟩ := Prod.mk.inj h
        obtain rfl := Except.error.inj herror
        exact ⟨rfl, Or.inr ⟨place, _, htakes, .stopped f length, rfl⟩⟩
      case h_2 =>
        split at h
        case h_1 => cases (Prod.mk.inj h).1
        case h_2 hfault =>
          obtain ⟨herror, rfl⟩ := Prod.mk.inj h
          obtain rfl := Except.error.inj herror
          exact ⟨rfl, Or.inr ⟨place, _, htakes, .portion hfault, rfl⟩⟩
  · rw [hfail] at h
    obtain ⟨herror, rfl⟩ := Prod.mk.inj h
    obtain rfl := Except.error.inj herror
    exact ⟨rfl, Or.inl rfl⟩

/-- Operations one after another fail at one of them, after all before it. -/
theorem performAll_eq_error {ops : List FileOperation}
    (h : t.performAll disk ops = (.error e, t')) :
    ∃ done op rest between, ops = done ++ op :: rest
      ∧ t.performAll disk done = (.ok (), between) ∧ between.perform disk op = (.error e, t') := by
  induction ops generalizing t with
  | nil => cases (Prod.mk.inj h).1
  | cons op rest ih =>
      rw [performAll] at h
      split at h
      · rename_i hop
        obtain ⟨hresult, rfl⟩ := Prod.mk.inj h
        obtain rfl := Except.error.inj hresult
        exact ⟨[], op, rest, t, rfl, rfl, hop⟩
      · rename_i next hop
        obtain ⟨done, op', others, between, rfl, hdone, hfails⟩ := ih h
        refine ⟨op :: done, op', others, between, rfl, ?_, hfails⟩
        rw [performAll, hop]
        exact hdone

end FileTree

/-! ## What is left of the files -/

def IsWhole (t : FileTree) (place : List Text) (x : Path × List Portion) : Prop :=
  (FileTree.writable x.2).2 = none ∧ t.locate x.1 = .ok (.file place (FileTree.writable x.2).1)

/-- What a store leaves that fails: its data is invalid and nothing is done; or its directory cannot
be made, and no file changes; or it fails at one of its files. Then those before that one are whole,
that one may be cut short, and every other file holds what it has held. -/
inductive LeavesFiles (disk : Disk) (dir : Path) (data : StoreData) (t t' : FileTree) :
    StoreError → Prop where
  | invalid {f : ShapeFault} (fault : data.fault? = some f) (same : t' = t) :
      LeavesFiles disk dir data t t' (.shape f)
  | unmade {e : FileError} (made : t.makeDirectories dir disk = (.error e, t'))
      (files : ∀ q text, t.entry? q = some (.file text) → t'.entry? q = some (.file text)) :
      LeavesFiles disk dir data t t' (.file e)
  | broken {e : FileError} (done : List (Path × List Portion)) (x : Path × List Portion)
      (rest : List (Path × List Portion)) (order : data.files = done ++ x :: rest)
      (path : e.path = x.1) (whole : ∀ y ∈ done, ∃ q, IsWhole t' q y)
      (files : ∀ q text, t.entry? q = some (.file text) → t'.entry? q = some (.file text)
        ∨ (∃ y ∈ done, IsWhole t' q y)
        ∨ ∃ cut, FileTree.IsCut x.2 e.fault cut ∧ t'.locate x.1 = .ok (.file q cut)) :
      LeavesFiles disk dir data t t' (.file e)

section

variable {t made between t' : FileTree} {disk : Disk} {dir : Path} {data : StoreData}
  {done rest : List (Path × List Portion)} {x : Path × List Portion} {e : FileError}

/-- What is left where one of the files fails after others that stand at places of their own. -/
theorem leavesFiles_of_write (hroom : t.MakesRoom made) (horder : data.files = done ++ x :: rest)
    (place : Path × List Portion → List Text)
    (hdone : ∀ y ∈ done, IsWhole between (place y) y)
    (hframe : ∀ q, (∀ y ∈ done, q ≠ place y) → between.entry? q = made.entry? q)
    (hapart : ∀ q, between.Takes x.1 q → ∀ y ∈ done, place y ≠ q)
    (hfails : between.write x.1 x.2 disk = (.error e, t')) :
    LeavesFiles disk dir data t t' (.file e) := by
  have hkept : ∀ q text, t.entry? q = some (.file text) → between.entry? q = some (.file text)
      ∨ ∃ y ∈ done, place y = q := by
    intro q text hq
    by_cases hplaces : ∃ y ∈ done, place y = q
    · exact Or.inr hplaces
    · rw [hframe q fun y hy heq => hplaces ⟨y, hy, heq.symm⟩]
      rcases hroom.entry q with heq | ⟨hnone, -⟩
      · exact Or.inl (heq.trans hq)
      · rw [hnone] at hq
        cases hq
  obtain ⟨hpath, rfl | ⟨opened, cut, htakes, hcut, rfl⟩⟩ := FileTree.write_eq_error hfails
  · refine .broken done x rest horder hpath (fun y hy => ⟨place y, hdone y hy⟩) ?_
    intro q text hq
    refine (hkept q text hq).imp_right fun hplaces => Or.inl ?_
    obtain ⟨y, hy, rfl⟩ := hplaces
    exact ⟨y, hy, hdone y hy⟩
  · have hgrows : between.Grows (between.insert opened (.file cut)) :=
      FileTree.grows_insert_file htakes.free cut
    -- the files before are found where they were, since this one is elsewhere
    have hwhole : ∀ y ∈ done, IsWhole (between.insert opened (.file cut)) (place y) y := by
      intro y hy
      obtain ⟨hnone, hlocate⟩ := hdone y hy
      have hentry := FileTree.entry_of_file hlocate
      have hother := FileTree.entry_insert_of_ne between (hapart opened htakes y hy) (.file cut)
      refine ⟨hnone, ?_⟩
      rw [hgrows.locate_of_takes (Or.inr ⟨_, hlocate⟩),
        FileTree.found_of_file (hother.trans hentry)]
    refine .broken done x rest horder hpath (fun y hy => ⟨place y, hwhole y hy⟩) ?_
    intro q text hq
    by_cases hopened : q = opened
    · refine Or.inr (Or.inr ⟨cut, hcut, ?_⟩)
      rw [hopened, hgrows.locate_of_takes htakes, FileTree.found_of_file
        (FileTree.entry_insert_self between (FileTree.ne_nil_of_entry htakes.free) _)]
    · rcases hkept q text hq with hsame | ⟨y, hy, rfl⟩
      · rw [FileTree.entry_insert_of_ne between hopened]
        exact Or.inl hsame
      · exact Or.inr (Or.inl ⟨y, hy, hwhole y hy⟩)

/-- A directory that cannot be made changes no file. -/
theorem leavesFiles_of_makeDirectories (h : t.makeDirectories dir disk = (.error e, t')) :
    LeavesFiles disk dir data t t' (.file e) := by
  refine .unmade h ?_
  intro q text hq
  have hroom := t.makeDirectories_makesRoom dir disk
  rw [h] at hroom
  rcases hroom.entry q with heq | ⟨hnone, -⟩
  · exact heq.trans hq
  · rw [hnone] at hq
    cases hq

/-- A store that fails finds its data invalid, or cannot make its directory, or else it fails at one
of its files. -/
theorem StoreData.store_eq_error {e : StoreError} (h : data.store t dir disk = (.error e, t')) :
    LeavesFiles disk dir data t t' e
      ∨ ∃ made done x rest between e', e = .file e' ∧ t.MakesRoom made
        ∧ (∃ place, made.locate dir = .ok (.directory place)) ∧ data.files = done ++ x :: rest
        ∧ made.performAll disk (done.map fun y => .write y.1 y.2) = (.ok (), between)
        ∧ between.write x.1 x.2 disk = (.error e', t') := by
  unfold StoreData.store at h
  cases hfault : data.fault? with
  | some f =>
      rw [work, hfault] at h
      obtain ⟨herror, rfl⟩ := Prod.mk.inj h
      obtain rfl := Except.error.inj herror
      exact Or.inl (.invalid hfault rfl)
  | none =>
      have hroom := t.makeDirectories_makesRoom dir disk
      have hmake : t.perform disk (.makeRoom dir) = t.makeDirectories dir disk := rfl
      rw [work, hfault] at h
      dsimp only at h
      rw [FileTree.performAll, hmake] at h
      cases hdir : t.makeDirectories dir disk with
      | mk result made =>
          rw [hdir] at h hroom
          cases result with
          | error e' =>
              obtain ⟨herror, rfl⟩ := Prod.mk.inj h
              obtain rfl := Except.error.inj herror
              exact Or.inl (leavesFiles_of_makeDirectories hdir)
          | ok v =>
              dsimp only at h
              cases hfiles : made.performAll disk (data.files.map fun x => .write x.1 x.2) with
              | mk result after =>
                  rw [hfiles] at h
                  cases result with
                  | ok v => cases (Prod.mk.inj h).1
                  | error e' =>
                      obtain ⟨herror, rfl⟩ := Prod.mk.inj h
                      obtain rfl := Except.error.inj herror
                      obtain ⟨_, op, _, between, horder, hdone, hfails⟩ :=
                        FileTree.performAll_eq_error hfiles
                      obtain ⟨done, others, hsplit, rfl, hothers⟩ := List.map_eq_append_iff.mp horder
                      obtain ⟨x, rest, rfl, rfl, rfl⟩ := List.map_eq_cons_iff.mp hothers
                      exact Or.inr ⟨made, done, x, rest, between, e', rfl, hroom,
                        FileTree.locate_of_makeDirectories hdir, hsplit, hdone, hfails⟩

end

/-! ## The two stores -/

section

variable {t t' : FileTree} {disk : Disk} {pipeline : Path} {fault? : Option ShapeFault}
  {e : StoreError}

theorem ContractFile.leavesFiles {task : Text} {contract : List Portion}
    (h : (storeData pipeline task fault? contract).store t (pipeline / "analysis") disk
      = (.error e, t')) :
    LeavesFiles disk (pipeline / "analysis") (storeData pipeline task fault? contract) t t' e := by
  rcases StoreData.store_eq_error h with hleaves |
    ⟨made, done, x, rest, between, e', rfl, hroom, -, horder, hdone, hfails⟩
  · exact hleaves
  · -- it is the first of its files that fails, since there is no other
    obtain rfl : done = [] := by
      cases done with
      | nil => rfl
      | cons y done =>
          obtain ⟨-, hrest⟩ := List.cons.inj horder
          exact absurd hrest (by simp)
    obtain rfl := (Prod.mk.inj hdone).2
    exact leavesFiles_of_write hroom horder (fun _ => []) (List.forall_mem_nil _)
      (fun _ _ => rfl) (fun _ _ => List.forall_mem_nil _) hfails

theorem SchemaFiles.files_eq (pipeline : Path) (artifact : Text) (fault? : Option ShapeFault)
    (schema sample origin : List Portion) :
    (storeData pipeline artifact fault? schema sample origin).files
      = (endings.zip [schema, sample, origin]).map fun x =>
        ((pipeline / "schemas").child ((Path.ofText artifact).stem ++ x.1), x.2) := by
  rw [storeData, SchemaPaths.ofArtifact_eq]
  rfl

/-- The files of a schema stand at places of their own, by their names. -/
theorem SchemaFiles.leavesFiles {artifact : Text} {schema sample origin : List Portion}
    (h : (storeData pipeline artifact fault? schema sample origin).store t (pipeline / "schemas")
      disk = (.error e, t')) :
    LeavesFiles disk (pipeline / "schemas")
      (storeData pipeline artifact fault? schema sample origin) t t' e := by
  rcases StoreData.store_eq_error h with hleaves |
    ⟨made, done, x, rest, between, e', rfl, hroom, ⟨directory, hdir⟩, horder, hdone, hfails⟩
  · exact hleaves
  · have hfiles := files_eq pipeline artifact fault? schema sample origin
    rw [horder] at hfiles
    obtain ⟨named, others, hsplit, rfl, hothers⟩ := List.map_eq_append_iff.mp hfiles.symm
    obtain ⟨y, last, rfl, rfl, rfl⟩ := List.map_eq_cons_iff.mp hothers
    have hbase := Path.noSlash_stem artifact
    have hall : ∀ z ∈ named ++ y :: last, z.1 ∈ endings := by
      intro z hz
      exact (List.of_mem_zip (hsplit ▸ hz)).1
    have hnames : ∀ z ∈ named ++ y :: last, Path.IsName ((Path.ofText artifact).stem ++ z.1) :=
      fun z hz => isName_ending hbase (hall z hz)
    have hnodup : ((named ++ y :: last).map fun z =>
        FileName.kept ((Path.ofText artifact).stem ++ z.1)).Nodup := by
      rw [← hsplit]
      exact kept_endings_nodup (Path.ofText artifact).stem
    rw [List.map_append, List.map_cons] at hnodup
    obtain ⟨hdistinct, -, hapart⟩ := List.nodup_append.mp hnodup
    rw [schemas_eq_child] at hdir hdone hfails
    have hwrites : made.performAll disk (writes (pipeline.child (Text.ofString "schemas"))
        (named.map fun z => ((Path.ofText artifact).stem ++ z.1, z.2))) = (.ok (), between) := by
      rw [← hdone, writes, List.map_map, List.map_map]
      rfl
    obtain ⟨hkeeps, hwhole, hframe⟩ := writeAll_names isName_schemas hdir
      (List.forall_mem_map.mpr fun z hz => hnames z (List.mem_append_left _ hz))
      (by rw [List.map_map]; exact hdistinct) hwrites
    refine leavesFiles_of_write hroom horder
      (fun z => directory ++ [FileName.kept z.1.name]) ?_ ?_ ?_ (schemas_eq_child pipeline ▸ hfails)
    · rw [List.forall_mem_map]
      intro z hz
      obtain ⟨pieces, hportions, hencodable, hlocate⟩ := hwhole _ (List.mem_map_of_mem hz)
      have hwritable : FileTree.writable z.2 = (pieces.flatten, none) := by
        rw [show z.2 = pieces.map .ok from hportions]
        exact FileTree.writable_of_encodable hencodable
      rw [IsWhole, hwritable, Path.name_child, schemas_eq_child]
      exact ⟨rfl, hlocate⟩
    · intro q hq
      refine hframe q (List.forall_mem_map.mpr fun z hz => ?_)
      have hplace := hq _ (List.mem_map_of_mem hz)
      rwa [Path.name_child] at hplace
    · intro q htakes
      rw [List.forall_mem_map]
      intro z hz heq
      rw [Path.name_child] at heq
      rw [schemas_eq_child] at htakes
      have hname := hnames y (List.mem_append_right _ List.mem_cons_self)
      obtain ⟨hplace, -⟩ :=
        htakes.of_name isName_schemas (hkeeps.locate_directory hdir) hname
      rw [hplace] at heq
      exact hapart _ (List.mem_map_of_mem hz) _ List.mem_cons_self
        (List.cons.inj (List.append_cancel_left heq)).1

/-- **What a store that fails leaves of the files**, of a schema or of a contract, whatever data it
is given and whatever keeps the system from doing what is asked for. -/
theorem failed_store_leaves (t t' : FileTree) (disk : Disk) (pipeline : Path) (name : Text)
    (fault? : Option ShapeFault) (schema sample origin contract : List Portion) (e : StoreError) :
    let schemas := SchemaFiles.storeData pipeline name fault? schema sample origin
    let stamped := ContractFile.storeData pipeline name fault? contract
    (SchemaFiles.writeData t pipeline name schemas disk = (.error e, t') →
        LeavesFiles disk (pipeline / "schemas") schemas t t' e)
      ∧ (ContractFile.writeData t pipeline name stamped disk = (.error e, t') →
        LeavesFiles disk (pipeline / "analysis") stamped t t' e) := by
  have hmap : ∀ {α : Type} {a : α} {stored : Except StoreError Unit × FileTree},
      (stored.1.map fun _ => a, stored.2) = (.error e, t') → stored = (.error e, t') := by
    rintro α a ⟨e' | _, files⟩ h
    · obtain ⟨herror, rfl⟩ := Prod.mk.inj h
      obtain rfl : e' = e := Except.error.inj herror
      rfl
    · cases (Prod.mk.inj h).1
  intro schemas stamped
  constructor
  · intro h
    have hstore : schemas.store t (SchemaPaths.ofArtifact pipeline name).schema.parent disk
        = (.error e, t') := hmap h
    rw [parent_schemas] at hstore
    exact SchemaFiles.leavesFiles hstore
  · exact fun h => ContractFile.leavesFiles (hmap h)

end

/-! ## A character that cannot be written -/

def halfCharacter : Json :=
  .str [CodePoint.ofNat 0xD83D]

def halfExample : Json :=
  .object [("schema", .object []), ("example", halfCharacter), ("reasoning", .ofString "")]

def halfStage : Json :=
  .object [("taskFilePath", .ofString "t.js"), ("stages", .arr [halfCharacter]),
    ("artifacts", .object [("reads", .arr []), ("writes", .arr [])]), ("models", .arr [])]

def numberStore : FileTree :=
  (SchemaFiles.write emptyStore ⟨2026, 1, 2, 3, 4, 5, 0⟩ emptyStorePath (Text.ofString "a.json")
    (numberCall (Text.ofString "a.json") 1).data).2

theorem halfExample_fails : (SchemaFiles.write numberStore ⟨2026, 1, 2, 3, 4, 5, 1⟩ emptyStorePath
    (Text.ofString "a.json") halfExample).1.isOk = false := by
  decide +kernel

theorem halfStage_fails : (ContractFile.write numberStore ⟨2026, 1, 2, 3, 4, 5, 1⟩ emptyStorePath
    (Text.ofString "t") halfStage).1.isOk = false := by
  decide +kernel

theorem halfCharacter_leaves : ∃ e t' e' t'',
    SchemaFiles.write numberStore ⟨2026, 1, 2, 3, 4, 5, 1⟩ emptyStorePath (Text.ofString "a.json")
        halfExample = (.error e, t')
      ∧ ContractFile.write numberStore ⟨2026, 1, 2, 3, 4, 5, 1⟩ emptyStorePath (Text.ofString "t")
        halfStage = (.error e', t'')
      ∧ LeavesFiles {} (emptyStorePath / "schemas") (SchemaFiles.ofJson ⟨2026, 1, 2, 3, 4, 5, 1⟩
        emptyStorePath (Text.ofString "a.json") halfExample) numberStore t' e
      ∧ LeavesFiles {} (emptyStorePath / "analysis") (ContractFile.ofJson ⟨2026, 1, 2, 3, 4, 5, 1⟩
        emptyStorePath (Text.ofString "t") halfStage) numberStore t'' e' := by
  have hschema := halfExample_fails
  have hcontract := halfStage_fails
  rcases hwrite : SchemaFiles.write numberStore ⟨2026, 1, 2, 3, 4, 5, 1⟩ emptyStorePath
    (Text.ofString "a.json") halfExample with ⟨e | _, t'⟩
  · rcases hwrite' : ContractFile.write numberStore ⟨2026, 1, 2, 3, 4, 5, 1⟩ emptyStorePath
      (Text.ofString "t") halfStage with ⟨e' | _, t''⟩
    · exact ⟨e, t', e', t'', rfl, rfl,
        (failed_store_leaves _ _ _ _ _ _ _ _ _ [] _).1 hwrite,
        (failed_store_leaves _ _ _ _ _ _ [] [] [] _ _).2 hwrite'⟩
    · rw [hwrite'] at hcontract
      cases hcontract
  · rw [hwrite] at hschema
    cases hschema

/-- The failed store of a schema has overwritten the stored schema and emptied its example. -/
theorem halfExample_overwrites :
    let written := SchemaFiles.write numberStore ⟨2026, 1, 2, 3, 4, 5, 1⟩ emptyStorePath
      (Text.ofString "a.json") halfExample
    let sample := emptyStorePath / "schemas" / "a.sample.json"
    let schema := emptyStorePath / "schemas" / "a.schema.json"
    written.1.isOk = false
      ∧ (numberStore.read sample).toOption = some (Text.ofString "1\n")
      ∧ (written.2.read sample).toOption = some []
      ∧ (numberStore.read schema).toOption ≠ (written.2.read schema).toOption := by
  decide +kernel

end TaskContract
