import TaskContract.CommandLine.Deductions
import TaskContract.Proofs.Analysis.Quotation
import TaskContract.Proofs.Files.Growth
import TaskContract.Proofs.Json.RoundTrip
import TaskContract.Proofs.Store.SchemaFiles
import TaskContract.Store.ContractFile

/-!
# Stored contracts are read back

The contract of a script is stored as an object of the program's own making, so it passes the check
of what is stored. The file is written to its end unless the name of an artifact holds a surrogate;
what is read back is then the object with the time of the analysis, and the writes are found in it.
-/

namespace TaskContract

/-! ## Records as objects -/

theorem Stage.isPlain_toJson {x : Stage} (hname : x.name.isScalar = true)
    (horder : x.order < 10 ^ Json.digitLimit) : x.toJson.isPlain = true := by
  have hnames : ["name", "order", "isAsync"].Nodup := by decide
  refine Json.isPlain_object hnames ?_
  simp only [List.forall_mem_cons]
  exact ⟨hname, Json.isPlain_ofNat horder, rfl, List.forall_mem_nil _⟩

theorem ArtifactRead.isPlain_toJson {r : ArtifactRead} (hname : r.fileName.isScalar = true)
    (hstage : r.stage.isScalar = true) : r.toJson.isPlain = true := by
  have hnames : ["fileName", "stage", "required"].Nodup := by decide
  refine Json.isPlain_object hnames ?_
  simp only [List.forall_mem_cons]
  exact ⟨hname, hstage, rfl, List.forall_mem_nil _⟩

theorem ArtifactWrite.isPlain_toJson {w : ArtifactWrite} (hname : w.fileName.isScalar = true)
    (hstage : w.stage.isScalar = true) : w.toJson.isPlain = true := by
  have hnames : ["fileName", "stage"].Nodup := by decide
  refine Json.isPlain_object hnames ?_
  simp only [List.forall_mem_cons]
  exact ⟨hname, hstage, List.forall_mem_nil _⟩

theorem ModelCall.isPlain_toJson {m : ModelCall} (hprovider : m.provider.isScalar = true)
    (hmethod : m.method.isScalar = true) (hstage : m.stage.isScalar = true) :
    m.toJson.isPlain = true := by
  have hnames : ["provider", "method", "stage"].Nodup := by decide
  refine Json.isPlain_object hnames ?_
  simp only [List.forall_mem_cons]
  exact ⟨hprovider, hmethod, hstage, List.forall_mem_nil _⟩

/-- The reference is plain whether or not it says that it is required. -/
theorem UnresolvedReference.isPlain_toJson {u : UnresolvedReference} {s : Script.Source}
    (h : u.FitsIn s) (hsize : s.chars.length + 1 < 10 ^ Json.digitLimit) :
    u.toJson.isPlain = true := by
  have hline : u.location.line < 10 ^ Json.digitLimit := h.location.line.trans_lt hsize
  have hcolumn : u.location.column < 10 ^ Json.digitLimit := h.location.column.trans_lt hsize
  have hlocation : (Json.object [("line", .ofNat u.location.line),
      ("column", .ofNat u.location.column)]).isPlain = true := by
    have hnames : ["line", "column"].Nodup := by decide
    refine Json.isPlain_object hnames ?_
    simp only [List.forall_mem_cons]
    exact ⟨Json.isPlain_ofNat hline, Json.isPlain_ofNat hcolumn, List.forall_mem_nil _⟩
  rw [toJson]
  cases u.required with
  | none =>
      have hnames : ["expression", "codeContext", "stage", "location"].Nodup := by decide
      refine Json.isPlain_object hnames ?_
      simp only [Option.map_none, Option.toList_none, List.append_nil, List.cons_append,
        List.nil_append, List.forall_mem_cons]
      exact ⟨h.expression, h.codeContext, h.stage, hlocation, List.forall_mem_nil _⟩
  | some required =>
      have hnames : ["expression", "codeContext", "stage", "required", "location"].Nodup := by
        decide
      refine Json.isPlain_object hnames ?_
      simp only [Option.map_some, Option.toList_some, List.cons_append, List.nil_append,
        List.forall_mem_cons]
      exact ⟨h.expression, h.codeContext, h.stage, rfl, hlocation, List.forall_mem_nil _⟩

/-- The integers of a reference say where it is. -/
theorem UnresolvedReference.integersFit_toJson {u : UnresolvedReference} {s : Script.Source}
    (h : u.FitsIn s) (hsize : s.chars.length + 1 < 10 ^ Json.digitLimit) :
    u.toJson.integersFit = true :=
  Json.integersFit_of_isReadable _ (Json.isReadable_of_isPlain _ (u.isPlain_toJson h hsize))

/-! ## Contracts as objects -/

namespace Contract

def fileNames (c : Contract) : List Text :=
  c.reads.map ArtifactRead.fileName ++ c.writes.map ArtifactWrite.fileName

def fields (c : Contract) : List (String × Json) :=
  [("stages", .arr (c.stages.map Stage.toJson)),
    ("artifacts", .object [("reads", .arr (c.reads.map ArtifactRead.toJson)),
      ("writes", .arr (c.writes.map ArtifactWrite.toJson)),
      ("unresolvedReads", .arr (c.unresolvedReads.map UnresolvedReference.toJson)),
      ("unresolvedWrites", .arr (c.unresolvedWrites.map UnresolvedReference.toJson))]),
    ("models", .arr (c.models.map ModelCall.toJson))]

def stampedFields (c : Contract) (taskFilePath : Text) (now : Timestamp) : List (String × Json) :=
  [("taskFilePath", .str taskFilePath), ("stages", .arr (c.stages.map Stage.toJson)),
    ("artifacts", .object [("reads", .arr (c.reads.map ArtifactRead.toJson)),
      ("writes", .arr (c.writes.map ArtifactWrite.toJson)),
      ("unresolvedReads", .arr (c.unresolvedReads.map UnresolvedReference.toJson)),
      ("unresolvedWrites", .arr (c.unresolvedWrites.map UnresolvedReference.toJson))]),
    ("models", .arr (c.models.map ModelCall.toJson)), ("analyzedAt", .str now.text)]

theorem toJson_eq (c : Contract) : c.toJson = .object c.fields :=
  rfl

theorem stampedFields_eq (c : Contract) (taskFilePath : Text) (now : Timestamp) :
    c.stampedFields taskFilePath now
      = ("taskFilePath", .str taskFilePath) :: c.fields ++ [("analyzedAt", .str now.text)] :=
  rfl

theorem stamped_eq (c : Contract) (taskFilePath : Text) (now : Timestamp) :
    ContractFile.stamped now (c.toJson (some taskFilePath))
      = .object (c.stampedFields taskFilePath now) :=
  rfl

theorem fault_toJson (c : Contract) {taskFilePath : Text} (h : taskFilePath ≠ []) :
    ContractFile.fault? (c.toJson (some taskFilePath)) = none := by
  obtain ⟨d, rest, rfl⟩ := List.exists_cons_of_ne_nil h
  rfl

theorem storedWrites_stamped (c : Contract) (taskFilePath : Text) (now : Timestamp) :
    Contract.storedWrites? (.object (c.stampedFields taskFilePath now)) = some c.writes := by
  have hwrite : ∀ w : ArtifactWrite, ArtifactWrite.ofJson? w.toJson = some w := fun _ => rfl
  show (c.writes.map ArtifactWrite.toJson).mapM ArtifactWrite.ofJson? = some c.writes
  induction c.writes with
  | nil => rfl
  | cons w rest ih =>
      rw [List.map_cons, List.mapM_cons, hwrite, ih]
      rfl

variable {c : Contract} {s : Script.Source} {taskFilePath : Text}

/-- The members are plain if the names of artifacts are. -/
theorem isPlain_of_mem_fields (hfits : c.FitsIn s)
    (hsize : s.chars.length + 1 < 10 ^ Json.digitLimit)
    (hnames : ∀ name ∈ c.fileNames, name.isScalar = true) : ∀ m ∈ c.fields, m.2.isPlain = true := by
  obtain ⟨hreads, hwrites⟩ := List.forall_mem_append.mp hnames
  have hartifacts : ["reads", "writes", "unresolvedReads", "unresolvedWrites"].Nodup := by decide
  simp only [fields, List.forall_mem_cons]
  refine ⟨Json.arePlain_map ?stages, Json.isPlain_object hartifacts ?artifacts,
    Json.arePlain_map ?models, List.forall_mem_nil _⟩
  case stages =>
    intro x hx
    obtain ⟨hname, horder⟩ := hfits.stages x hx
    exact Stage.isPlain_toJson hname (horder.trans_lt hsize)
  case models =>
    intro m hm
    obtain ⟨hprovider, hmethod, hstage⟩ := hfits.models m hm
    exact ModelCall.isPlain_toJson hprovider hmethod hstage
  case artifacts =>
    simp only [List.forall_mem_cons]
    refine ⟨Json.arePlain_map ?reads, Json.arePlain_map ?writes, Json.arePlain_map ?unresolvedReads,
      Json.arePlain_map ?unresolvedWrites, List.forall_mem_nil _⟩
    case reads =>
      intro r hr
      exact ArtifactRead.isPlain_toJson (hreads _ (List.mem_map_of_mem hr)) (hfits.reads r hr)
    case writes =>
      intro w hw
      exact ArtifactWrite.isPlain_toJson (hwrites _ (List.mem_map_of_mem hw)) (hfits.writes w hw)
    case unresolvedReads =>
      exact fun u hu => UnresolvedReference.isPlain_toJson (hfits.unresolvedReads u hu) hsize
    case unresolvedWrites =>
      exact fun u hu => UnresolvedReference.isPlain_toJson (hfits.unresolvedWrites u hu) hsize

/-- The stored form is plain if the path and the names of artifacts are. -/
theorem isPlain_stamped (hfits : c.FitsIn s)
    (hsize : s.chars.length + 1 < 10 ^ Json.digitLimit)
    (hnames : ∀ name ∈ taskFilePath :: c.fileNames, name.isScalar = true) (now : Timestamp) :
    (Json.object (c.stampedFields taskFilePath now)).isPlain = true := by
  obtain ⟨hpath, hnames⟩ := List.forall_mem_cons.mp hnames
  have hfields : ["taskFilePath", "stages", "artifacts", "models", "analyzedAt"].Nodup := by decide
  refine Json.isPlain_object hfields ?_
  rw [stampedFields_eq, List.cons_append, List.forall_mem_cons, List.forall_mem_append]
  exact ⟨hpath, isPlain_of_mem_fields hfits hsize hnames,
    List.forall_mem_singleton.mpr now.isScalar_text⟩

/-- Whatever the names of artifacts are, the integers of the stored form fit. -/
theorem integersFit_stamped (hfits : c.FitsIn s)
    (hsize : s.chars.length + 1 < 10 ^ Json.digitLimit) (taskFilePath : Text) (now : Timestamp) :
    (Json.object (c.stampedFields taskFilePath now)).integersFit = true := by
  simp only [stampedFields, Json.integersFit_object, Json.integersFit_arr_map, List.all_cons,
    List.all_nil, Bool.and_eq_true, List.all_eq_true]
  refine ⟨rfl, fun x hx => ?stage, ⟨fun r _ => rfl, fun w _ => rfl, fun u hu => ?read,
    fun u hu => ?write, trivial⟩, fun m _ => rfl, rfl, trivial⟩
  case stage =>
    have horder := Json.integersFit_ofNat ((hfits.stages x hx).2.trans_lt hsize)
    simp only [Stage.toJson, Json.integersFit_object, List.all_cons, List.all_nil,
      Bool.and_eq_true]
    exact ⟨rfl, horder, rfl, trivial⟩
  case read => exact u.integersFit_toJson (hfits.unresolvedReads u hu) hsize
  case write => exact u.integersFit_toJson (hfits.unresolvedWrites u hu) hsize

/-- A surrogate in the name of an artifact is one in a member. -/
theorem isScalar_of_fields (h : ∀ m ∈ c.fields, m.2.isScalar = true) :
    ∀ name ∈ c.fileNames, name.isScalar = true := by
  simp only [fields, List.forall_mem_cons, Json.isScalar_object, Json.isScalar_arr_map,
    List.all_cons, List.all_nil, Bool.and_eq_true, List.all_eq_true, ArtifactRead.toJson,
    ArtifactWrite.toJson, Json.isScalar_str] at h
  obtain ⟨-, ⟨hreads, hwrites, -⟩, -⟩ := h
  refine List.forall_mem_append.mpr ⟨?reads, ?writes⟩
  case reads =>
    intro name hname
    obtain ⟨r, hr, rfl⟩ := List.mem_map.mp hname
    exact (hreads r hr).1
  case writes =>
    intro name hname
    obtain ⟨w, hw, rfl⟩ := List.mem_map.mp hname
    exact (hwrites w hw).1

theorem isPlain_toJson (hfits : c.FitsIn s) (hsize : s.chars.length + 1 < 10 ^ Json.digitLimit)
    (hnames : ∀ name ∈ c.fileNames, name.isScalar = true) : c.toJson.isPlain = true := by
  have hfields : ["stages", "artifacts", "models"].Nodup := by decide
  rw [toJson_eq]
  exact Json.isPlain_object hfields (isPlain_of_mem_fields hfits hsize hnames)

/-- Of all texts in the printed form, only the names of artifacts can hold surrogates. -/
theorem isScalar_toJson_iff (hfits : c.FitsIn s)
    (hsize : s.chars.length + 1 < 10 ^ Json.digitLimit) :
    c.toJson.isScalar = true ↔ ∀ name ∈ c.fileNames, name.isScalar = true := by
  constructor
  · intro hscalar
    rw [toJson_eq, Json.isScalar_object, List.all_eq_true] at hscalar
    exact isScalar_of_fields hscalar
  · intro hnames
    exact Json.isScalar_of_isPlain _ (isPlain_toJson hfits hsize hnames)

/-- A surrogate in the path or in the name of an artifact is one in the stored form. -/
theorem isScalar_of_stamped {now : Timestamp}
    (h : (Json.object (c.stampedFields taskFilePath now)).isScalar = true) :
    ∀ name ∈ taskFilePath :: c.fileNames, name.isScalar = true := by
  rw [Json.isScalar_object, List.all_eq_true, stampedFields_eq, List.cons_append,
    List.forall_mem_cons, List.forall_mem_append] at h
  obtain ⟨hpath, hfields, -⟩ := h
  exact List.forall_mem_cons.mpr ⟨hpath, isScalar_of_fields hfields⟩

end Contract

/-! ## The file of a task -/

namespace ContractFile

def fileName (task : Text) : Text :=
  task ++ Text.ofString ".analysis.json"

/-- There is room for the file of a task: the directory for contracts is there or can be made, the
task is a plain name, its file can be looked up, and it is not a directory. -/
structure HasRoom (files : FileTree) (pipeline : Path) (task : Text) (place : List Text) :
    Prop where
  offers : files.Offers (pipeline / "analysis") place
  noSlash : CodePoint.ofChar '/' ∉ task
  fits : (FileName.bytes (fileName task)).length ≤ FileTree.nameLimit
  text : FileTree.textFault? (path pipeline task).text = none
  free : files.entry? (place ++ [FileName.kept (fileName task)]) ≠ some .directory

theorem analysis_eq_child (pipeline : Path) :
    pipeline / "analysis" = pipeline.child (Text.ofString "analysis") :=
  Path.div_eq_child pipeline ⟨by decide, by decide, by decide, by decide⟩

theorem isName_fileName {task : Text} (h : CodePoint.ofChar '/' ∉ task) :
    Path.IsName (fileName task) :=
  Path.isName_append h (by decide) (by decide)

theorem path_eq (pipeline : Path) {task : Text} (h : CodePoint.ofChar '/' ∉ task) :
    path pipeline task = (pipeline.child (Text.ofString "analysis")).child (fileName task) := by
  rw [← analysis_eq_child]
  exact Path.div_eq_child _ (isName_fileName h)

theorem work_eq (now : Timestamp) (pipeline : Path) (task : Text) {data : Json}
    (hfault : fault? data = none) :
    (ofJson now pipeline task data).work (pipeline / "analysis")
      = .ok [.makeRoom (pipeline / "analysis"),
        .write (path pipeline task) (stamped now data).filePortions] := by
  rw [ofJson, storeData, StoreData.work, hfault]
  rfl

theorem write_eq (files : FileTree) (now : Timestamp) (pipeline : Path) (task : Text) {data : Json}
    (disk : Disk) (hfault : fault? data = none) :
    write files now pipeline task data disk
      = match files.makeDirectories (pipeline / "analysis") disk with
        | (.error e, files) => (.error (.file e), files)
        | (.ok (), files) =>
          match files.write (path pipeline task) (stamped now data).filePortions disk with
          | (.error e, files) => (.error (.file e), files)
          | (.ok (), files) => (.ok (path pipeline task), files) := by
  have hroom : files.perform disk (.makeRoom (pipeline / "analysis"))
      = files.makeDirectories (pipeline / "analysis") disk := rfl
  rw [ContractFile.write, writeData, StoreData.store, work_eq now pipeline task hfault]
  dsimp only
  rw [FileTree.performAll, hroom]
  rcases files.makeDirectories (pipeline / "analysis") disk with ⟨_ | _, made⟩
  · rfl
  · have hfile : made.perform disk (.write (path pipeline task) (stamped now data).filePortions)
        = made.write (path pipeline task) (stamped now data).filePortions disk := rfl
    dsimp only
    rw [FileTree.performAll, hfile]
    rcases made.write (path pipeline task) (stamped now data).filePortions disk
      with ⟨_ | _, stored⟩ <;> rfl

section

variable {files : FileTree} {pipeline : Path} {task : Text} {place : List Text}
  (h : HasRoom files pipeline task place)

include h

theorem HasRoom.locate {t : FileTree}
    (hdir : t.locate (pipeline / "analysis") = .ok (.directory place)) :
    t.locate (path pipeline task) = .ok (t.found (place ++ [FileName.kept (fileName task)])) := by
  have htext := h.text
  rw [path_eq pipeline h.noSlash] at htext ⊢
  rw [analysis_eq_child] at hdir
  exact FileTree.locate_name (by decide) hdir (isName_fileName h.noSlash) h.fits htext

/-- The directory is made, and in it a file can be put at the place. -/
theorem HasRoom.made : ∃ made, files.makeDirectories (pipeline / "analysis") = (.ok (), made)
    ∧ made.locate (pipeline / "analysis") = .ok (.directory place)
    ∧ made.entry? (place ++ [FileName.kept (fileName task)]) ≠ some .directory := by
  obtain ⟨made, hmake, -, hdir, hframe⟩ := h.offers.makeDirectories
  refine ⟨made, hmake, hdir, ?_⟩
  rw [hframe _ (by simp)]
  exact h.free

/-- Data without a fault is written to its end, or fails for a surrogate in it. -/
theorem HasRoom.write (now : Timestamp) {data : Json} (hfault : fault? data = none)
    (hfits : (stamped now data).integersFit = true) :
    ((stamped now data).isScalar = true → ∃ files',
      write files now pipeline task data = (.ok (path pipeline task), files')
        ∧ files'.read (path pipeline task)
          = .ok (Text.unifyLineEnds (stamped now data).filePieces.flatten))
      ∧ ((stamped now data).isScalar = false → ∃ e,
        (ContractFile.write files now pipeline task data).1
          = .error (.file { fault := .unencodable e, path := path pipeline task })) := by
  obtain ⟨made, hmake, hdir, hfree⟩ := h.made
  have htakes := FileTree.takes_of_free (h.locate hdir) hfree
  have hwritten := write_eq files now pipeline task {} hfault
  rw [Json.filePortions_of_fits hfits, hmake] at hwritten
  constructor
  · intro hscalar
    have hpieces := Json.filePieces_encodable_iff.mpr hscalar
    have hwrite := FileTree.write_of_writable htakes hpieces
    -- a file is put where no directory was, so the directory around it is still found
    have hkeeps := FileTree.keeps_insert hfree (.file (stamped now data).filePieces.flatten)
    have hdir' := hkeeps.locate_directory hdir
    refine ⟨made.insert (place ++ [FileName.kept (fileName task)])
      (.file (stamped now data).filePieces.flatten), ?_, ?_⟩
    · rw [hwritten]
      dsimp only
      rw [hwrite]
    · rw [FileTree.read, h.locate hdir', FileTree.found, FileTree.entry_insert_self _ (by simp)]
  · intro hsurrogate
    have hpieces :
        ¬ ∀ piece ∈ (stamped now data).filePieces, Encoding.utf8.fault? piece = none := by
      rw [Json.filePieces_encodable_iff, hsurrogate]
      exact Bool.false_ne_true
    obtain ⟨e, hwrite⟩ := FileTree.write_of_unencodable htakes hpieces
    refine ⟨e, ?_⟩
    rw [hwritten]
    dsimp only
    generalize made.write (path pipeline task) ((stamped now data).filePieces.map .ok) = written
      at hwrite ⊢
    obtain ⟨result, files'⟩ := written
    obtain rfl : result = _ := hwrite
    rfl

end

end ContractFile

/-- The text of a file that a contract is read back from. -/
structure Contract.IsReadFrom (c : Contract) (taskFilePath : Text) (now : Timestamp)
    (text : Text) : Prop where
  /-- It is read as the stored form, with the time of the analysis behind the other members. -/
  value : ∃ ms, c.toJson (some taskFilePath) = .obj ms
    ∧ Json.read text = .ok (.obj (ms ++ [(Text.ofString "analyzedAt", .str now.text)]))
  /-- The writes are found in what is read. -/
  writes : ∀ v, Json.read text = .ok v → Contract.storedWrites? v = some c.writes

/-- The stored form of the contract of a script is read back, if it holds no surrogate. -/
theorem Contract.isReadFrom_stamped {s : Script.Source} {contract : Contract}
    (h : analyzeTask s = .ok contract) (hsize : s.chars.length + 1 < 10 ^ Json.digitLimit)
    {taskFilePath : Text} {now : Timestamp}
    (hscalar : (Json.object (contract.stampedFields taskFilePath now)).isScalar = true) :
    contract.IsReadFrom taskFilePath now
      (Text.unifyLineEnds (Json.object (contract.stampedFields taskFilePath now)).filePieces.flatten)
    := by
  have hnames := Contract.isScalar_of_stamped hscalar
  have hplain := Contract.isPlain_stamped (contract_fitsIn h) hsize hnames now
  have hback := Json.read_filePieces (Json.isReadable_of_isPlain _ hplain) hscalar
  refine ⟨⟨_, rfl, hback⟩, ?_⟩
  intro v hv
  rw [hback] at hv
  obtain rfl := Except.ok.inj hv
  exact contract.storedWrites_stamped taskFilePath now

/-- **A contract is stored and read back, unless a name in it cannot be written.** The contract of a
script passes the check of what is stored. If neither the path of the script nor the name of an
artifact holds a surrogate, the file is written, and the contract is read back from it; otherwise
the write fails for the encoding. A number in JSON is read up to its limit of digits, which no
script is long enough to pass. -/
theorem contract_stored_unless_surrogate {s : Script.Source} {contract : Contract}
    (h : analyzeTask s = .ok contract) (hsize : s.chars.length + 1 < 10 ^ Json.digitLimit)
    {taskFilePath : Text} (hpath : taskFilePath ≠ []) {files : FileTree} {pipeline : Path}
    {task : Text} {place : List Text} (hroom : ContractFile.HasRoom files pipeline task place)
    (now : Timestamp) :
    ContractFile.fault? (contract.toJson (some taskFilePath)) = none
      ∧ ((∀ name ∈ taskFilePath :: contract.fileNames, name.isScalar = true) → ∃ files' text,
        ContractFile.write files now pipeline task (contract.toJson (some taskFilePath))
            = (.ok (ContractFile.path pipeline task), files')
          ∧ files'.read (ContractFile.path pipeline task) = .ok text
          ∧ contract.IsReadFrom taskFilePath now text)
      ∧ ((¬ ∀ name ∈ taskFilePath :: contract.fileNames, name.isScalar = true) → ∃ e,
        (ContractFile.write files now pipeline task (contract.toJson (some taskFilePath))).1
          = .error (.file ⟨.unencodable e, ContractFile.path pipeline task⟩)) := by
  have hfault := contract.fault_toJson hpath
  have hstamped := contract.stamped_eq taskFilePath now
  have hfits : (Json.object (contract.stampedFields taskFilePath now)).integersFit = true :=
    contract.integersFit_stamped (contract_fitsIn h) hsize taskFilePath now
  obtain ⟨hwrites, hfails⟩ := hroom.write now hfault (hstamped ▸ hfits)
  rw [hstamped] at hwrites hfails
  refine ⟨hfault, ?stored, ?refused⟩
  case stored =>
    intro hnames
    have hplain := Contract.isPlain_stamped (contract_fitsIn h) hsize hnames now
    have hscalar := Json.isScalar_of_isPlain _ hplain
    obtain ⟨files', hwrite, hread⟩ := hwrites hscalar
    exact ⟨files', _, hwrite, hread, Contract.isReadFrom_stamped h hsize hscalar⟩
  case refused =>
    intro hnames
    -- the check of what is stored does not look into texts, so it is the write that fails
    refine hfails (Bool.eq_false_iff.mpr fun hscalar => hnames ?_)
    exact Contract.isScalar_of_stamped hscalar

def oneWrite : Script.Source :=
  { chars := "export const f=()=>io.writeArtifact('a.json')".toList }

theorem emptyStore_hasRoom : ContractFile.HasRoom emptyStore emptyStorePath (Text.ofString "t")
    [Text.ofString "p", Text.ofString "analysis"] where
  offers := Or.inr rfl
  noSlash := by decide
  fits := by decide
  text := by decide
  free := nofun

set_option maxRecDepth 100000 in
theorem oneWrite_found : ((analyzeTask oneWrite).toOption.any fun contract =>
    contract.fileNames = [Text.ofString "a.json"]) = true := by
  decide +kernel

theorem oneWrite_stored : ∃ (contract : Contract) (files : FileTree) (text : Text),
    analyzeTask oneWrite = .ok contract ∧ contract.fileNames = [Text.ofString "a.json"]
      ∧ files.read (ContractFile.path emptyStorePath (Text.ofString "t")) = .ok text
      ∧ contract.IsReadFrom (Text.ofString "t.js") ⟨2026, 1, 2, 3, 4, 5, 0⟩ text := by
  have hfound := oneWrite_found
  cases hanalyze : analyzeTask oneWrite with
  | error e =>
      rw [hanalyze] at hfound
      cases hfound
  | ok contract =>
      rw [hanalyze] at hfound
      have hnames : contract.fileNames = [Text.ofString "a.json"] := of_decide_eq_true hfound
      have hshort : oneWrite.chars.length + 1 < Json.digitLimit := by decide
      have hsize : oneWrite.chars.length + 1 < 10 ^ Json.digitLimit :=
        hshort.trans (Nat.lt_pow_self (by decide))
      have hpath : Text.ofString "t.js" ≠ [] := by decide
      obtain ⟨-, hstored, -⟩ := contract_stored_unless_surrogate hanalyze hsize hpath
        emptyStore_hasRoom ⟨2026, 1, 2, 3, 4, 5, 0⟩
      rw [hnames] at hstored
      obtain ⟨files, text, -, hread, hback⟩ := hstored (by decide)
      exact ⟨contract, files, text, rfl, hnames, hread, hback⟩

/-- A script that spells one character by escapes of its two halves. -/
def splitCharacter : Script.Source :=
  { chars := "export const f=()=>io.writeArtifact('\\uD83D\\uDE00.txt')".toList }

set_option maxRecDepth 100000 in
example : ((analyzeTask splitCharacter).toOption.any fun contract =>
    (ContractFile.write emptyStore ⟨2026, 1, 2, 3, 4, 5, 0⟩ emptyStorePath (Text.ofString "t")
      (contract.toJson (some (Text.ofString "t.js")))).1.isOk = false) = true := by
  decide +kernel

end TaskContract
