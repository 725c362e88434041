import Mathlib.Data.List.Nodup
import TaskContract.Store.SchemaFiles
import TaskContract.Proofs.Files.Name
import TaskContract.Proofs.Files.Lookup
import TaskContract.Proofs.Json.RoundTrip
import TaskContract.Proofs.Text

/-!
# The latest schema of an artifact

The schemas of a pipeline are files in one directory, three for each name without extension. After
any number of calls that succeed, these files hold what the last call for the name has stored; so
that is what is read back.
-/

namespace TaskContract

/-! ## Points in time -/

theorem Timestamp.isScalar_padded (width n : Nat) : (padded width n).isScalar = true := by
  rw [padded, Text.isScalar_append, Text.isScalar_replicate, Text.ofNat, Text.isScalar_ofString]
  rfl

theorem Timestamp.isScalar_text (t : Timestamp) : t.text.isScalar = true := by
  simp only [text, Text.isScalar_append, Text.isScalar_ofString, isScalar_padded,
    Bool.and_self]

/-! ## Calls -/

/-- What a schema is to be stored for, when, and what comes with it. -/
structure SchemaCall where
  now : Timestamp
  artifact : Text
  data : Json

namespace SchemaCall

def base (c : SchemaCall) : Text :=
  (Path.ofText c.artifact).stem

def isPlain (c : SchemaCall) : Bool :=
  ["schema", "example", "reasoning"].all fun field => ((c.data.get? field).getD .null).isPlain

def stored (c : SchemaCall) : List (Text × Json) :=
  [(Text.ofString ".schema.json", (c.data.get? "schema").getD .null),
    (Text.ofString ".sample.json", (c.data.get? "example").getD .null),
    (Text.ofString ".meta.json", SchemaFiles.origin c.now c.data)]

end SchemaCall

/-- Calls that succeed, one after another, lead from some files to others. -/
inductive StoredBy (pipeline : Path) (files : FileTree) : List SchemaCall → FileTree → Prop
  | start : StoredBy pipeline files [] files
  | call {calls : List SchemaCall} {before : FileTree} (h : StoredBy pipeline files calls before)
      (c : SchemaCall)
      (hok : (SchemaFiles.write before c.now pipeline c.artifact c.data).1.isOk = true) :
      StoredBy pipeline files (calls ++ [c])
        (SchemaFiles.write before c.now pipeline c.artifact c.data).2

def latestFor (calls : List SchemaCall) (base : Text) : Option SchemaCall :=
  (calls.filter fun c => FileName.kept c.base = FileName.kept base).getLast?

/-- The last call for an artifact with the same base name. -/
def latest (calls : List SchemaCall) (artifact : Text) : Option SchemaCall :=
  latestFor calls (Path.ofText artifact).stem

theorem latestFor_append (calls : List SchemaCall) (c : SchemaCall) (base : Text) :
    latestFor (calls ++ [c]) base
      = if FileName.kept c.base = FileName.kept base then some c else latestFor calls base := by
  rw [latestFor, List.filter_append]
  by_cases h : FileName.kept c.base = FileName.kept base
  · rw [if_pos h, List.filter_cons_of_pos (by simpa using h), List.filter_nil,
      List.getLast?_concat]
  · rw [if_neg h, List.filter_cons_of_neg (by simpa using h), List.filter_nil, List.append_nil]
    rfl

/-! ## Names of the files -/

def endings : List Text :=
  [Text.ofString ".schema.json", Text.ofString ".sample.json", Text.ofString ".meta.json"]

theorem ascii_of_mem_endings : ∀ e ∈ endings, ∀ c ∈ e, c.val < 0x80 ∧ c.val ≠ 0 := by
  decide

theorem Path.noSlash_stem (t : Text) : CodePoint.ofChar '/' ∉ (ofText t).stem := by
  have hname : CodePoint.ofChar '/' ∉ (ofText t).name := by
    rw [name, ofText]
    cases h : (namesOf t).getLast? with
    | none => exact List.not_mem_nil
    | some last => exact (of_mem_namesOf (List.mem_of_getLast? h)).2
  rw [stem, stemOf]
  split
  · split
    · exact fun h => hname (List.mem_of_mem_take h)
    · exact hname
  · exact hname

theorem isName_ending {base : Text} (hbase : CodePoint.ofChar '/' ∉ base) {e : Text}
    (he : e ∈ endings) : Path.IsName (base ++ e) := by
  have hslash : ∀ e ∈ endings, CodePoint.ofChar '/' ∉ e := by decide
  have hlong : ∀ e ∈ endings, 3 ≤ e.length := by decide
  exact Path.isName_append hbase (hslash e he) (hlong e he)

/-- Files with different endings have different names, whatever their base names are. -/
theorem ending_unique {e e' : Text} (he : e ∈ endings) (he' : e' ∈ endings) {base base' : Text}
    (h : base ++ e = base' ++ e') : e = e' ∧ base = base' := by
  have hsuffix : ∀ e ∈ endings, ∀ e' ∈ endings, e <:+ e' → e = e' := by decide
  have hends : e <:+ e' ∨ e' <:+ e :=
    List.suffix_or_suffix_of_suffix (List.suffix_append base e)
      (h ▸ List.suffix_append base' e')
  obtain rfl : e = e' := by
    rcases hends with hends | hends
    · exact hsuffix e he e' he' hends
    · exact (hsuffix e' he' e he hends).symm
  exact ⟨rfl, List.append_cancel_right h⟩

theorem kept_ending {base e : Text} (he : e ∈ endings) :
    FileName.kept (base ++ e) = FileName.kept base ++ e :=
  FileName.kept_append base fun c hc => (ascii_of_mem_endings e he c hc).1

theorem kept_ending_ne {base base' e e' : Text} (he : e ∈ endings) (he' : e' ∈ endings)
    (h : FileName.kept base ≠ FileName.kept base') :
    FileName.kept (base ++ e) ≠ FileName.kept (base' ++ e') := by
  rw [kept_ending he, kept_ending he']
  exact fun heq => h (ending_unique he he' heq).2

/-- The files of a base name are kept under different names. -/
theorem kept_endings_nodup (base : Text) :
    (endings.map fun e => FileName.kept (base ++ e)).Nodup := by
  have hkept : (endings.map fun e => FileName.kept (base ++ e))
      = endings.map fun e => FileName.kept base ++ e :=
    List.map_congr_left fun e he => kept_ending he
  have hnodup : endings.Nodup := by decide
  rw [hkept]
  exact hnodup.map fun e e' h => List.append_cancel_left h

theorem isName_schemas : Path.IsName (Text.ofString "schemas") :=
  ⟨by decide, by decide, by decide, by decide⟩

theorem schemas_eq_child (pipeline : Path) :
    pipeline / "schemas" = pipeline.child (Text.ofString "schemas") :=
  Path.div_eq_child pipeline isName_schemas

theorem SchemaPaths.ofArtifact_eq (pipeline : Path) (artifact : Text) :
    SchemaPaths.ofArtifact pipeline artifact
      = let file (ending : String) : Path :=
          (pipeline / "schemas").child ((Path.ofText artifact).stem ++ Text.ofString ending)
        { schema := file ".schema.json", sample := file ".sample.json",
          origin := file ".meta.json" } := by
  have hfile : ∀ e ∈ endings, pipeline / "schemas" / ((Path.ofText artifact).stem ++ e)
      = (pipeline / "schemas").child ((Path.ofText artifact).stem ++ e) := fun e he =>
    Path.div_eq_child _ (isName_ending (Path.noSlash_stem artifact) he)
  rw [SchemaPaths.ofArtifact]
  dsimp only
  rw [hfile _ (by decide), hfile _ (by decide), hfile _ (by decide)]

/-! ## What a call stores -/

theorem FieldRule.holds_of_fault_eq_none {data : String} {v : Json} {r : FieldRule}
    (h : r.fault? data v = none) (hrequired : r.optional = false) :
    ∃ w, valueAt v r.path = some w ∧ r.kind.admits w = true := by
  rw [fault?, hrequired] at h
  cases hvalue : valueAt v r.path with
  | none =>
      rw [hvalue] at h
      cases h
  | some w =>
      rw [hvalue] at h
      dsimp only at h
      split at h
      · rename_i hadmits
        exact ⟨w, rfl, (Bool.and_eq_true_iff.mp hadmits).1⟩
      · cases h

/-- Data that is stored has all three fields. -/
theorem SchemaFiles.fields_of_fault_eq_none {data : Json} (h : SchemaFiles.fault? data = none) :
    ∃ schema sample reasoning, data.get? "schema" = some schema ∧ data.get? "example" = some sample
      ∧ data.get? "reasoning" = some reasoning := by
  have hrules := List.findSome?_eq_none_iff.mp h
  have hfield : ∀ (name : String) (kind : Kind), { path := [name], kind : FieldRule } ∈ rules →
      ∃ w, data.get? name = some w := by
    intro name kind hmem
    obtain ⟨w, hw, -⟩ := FieldRule.holds_of_fault_eq_none (hrules _ hmem) rfl
    obtain ⟨v, hv, -⟩ := Option.bind_eq_some_iff.mp hw
    exact ⟨v, hv⟩
  obtain ⟨schema, hschema⟩ := hfield "schema" .object (by simp [rules])
  obtain ⟨sample, hsample⟩ := hfield "example" .notNull (by simp [rules])
  obtain ⟨reasoning, hreasoning⟩ := hfield "reasoning" .string (by simp [rules])
  exact ⟨schema, sample, reasoning, hschema, hsample, hreasoning⟩

section

variable {t t' : FileTree} {dir : Path} {inner : Text} {place : List Text}

def writes (dir : Path) (values : List (Text × List Portion)) : List FileOperation :=
  values.map fun x => .write (dir.child x.1) x.2

def StandsAt (t : FileTree) (p : Path) (place : List Text) (portions : List Portion) : Prop :=
  ∃ pieces : List Text, portions = pieces.map .ok
    ∧ (∀ piece ∈ pieces, Encoding.utf8.fault? piece = none)
    ∧ t.locate p = .ok (.file place pieces.flatten)

theorem StandsAt.value {p : Path} {v : Json} (h : StandsAt t p place v.filePortions) :
    v.integersFit = true ∧ v.isScalar = true
      ∧ t.locate p = .ok (.file place v.filePieces.flatten) := by
  obtain ⟨pieces, hportions, hencodable, hlocate⟩ := h
  obtain ⟨hfits, rfl⟩ := Json.filePieces_of_portions hportions
  exact ⟨hfits, Json.filePieces_encodable_iff.mp hencodable, hlocate⟩

/-- What stands at a place stands there in every tree that has the place as it is. -/
theorem StandsAt.keep {p : Path} {portions : List Portion} (h : StandsAt t p place portions)
    (hkeeps : t.Keeps t') (hentry : t'.entry? place = t.entry? place) :
    StandsAt t' p place portions := by
  obtain ⟨pieces, hportions, hencodable, hlocate⟩ := h
  refine ⟨pieces, hportions, hencodable, ?_⟩
  rw [FileTree.entry_of_file hlocate] at hentry
  rcases hkeeps.locate hlocate with ⟨d, hd, -⟩ | ⟨q, hq, hlocate'⟩
  · cases hd
  · obtain ⟨rfl, -⟩ := FileTree.found_eq_file hq.symm
    rw [hlocate', FileTree.found_of_file hentry]

/-- Files that are written under different names in a directory all stand there. -/
theorem writeAll_names {disk : Disk} (hinner : Path.IsName inner)
    (hdir : t.locate (dir.child inner) = .ok (.directory place))
    {values : List (Text × List Portion)} (hnames : ∀ x ∈ values, Path.IsName x.1)
    (hdistinct : (values.map fun x => FileName.kept x.1).Nodup)
    (h : t.performAll disk (writes (dir.child inner) values) = (.ok (), t')) :
    t.Keeps t'
      ∧ (∀ x ∈ values,
        StandsAt t' ((dir.child inner).child x.1) (place ++ [FileName.kept x.1]) x.2)
      ∧ ∀ q, (∀ x ∈ values, q ≠ place ++ [FileName.kept x.1]) → t'.entry? q = t.entry? q := by
  induction values generalizing t with
  | nil =>
      obtain rfl := (Prod.mk.inj h).2
      exact ⟨⟨rfl, fun _ hq => hq⟩, List.forall_mem_nil _, fun _ _ => rfl⟩
  | cons x rest ih =>
      obtain ⟨name, portions⟩ := x
      obtain ⟨hname, hrestNames⟩ := List.forall_mem_cons.mp hnames
      obtain ⟨hnew, hrestDistinct⟩ := List.nodup_cons.mp hdistinct
      rw [writes, List.map_cons, FileTree.performAll] at h
      split at h
      · cases (Prod.mk.inj h).1
      · rename_i between hwrite
        obtain ⟨pieces, rfl, hwritten, hlocate, hkeeps, rfl⟩ :=
          FileTree.write_name_eq_ok hinner hdir hname hwrite
        obtain ⟨hkeeps', hfiles, hframe⟩ :=
          ih (hkeeps.locate_directory hdir) hrestNames hrestDistinct h
        -- the names are kept as different ones, so the first file is not written over
        have hother : ∀ x ∈ rest, place ++ [FileName.kept name] ≠ place ++ [FileName.kept x.1] := by
          intro x hx heq
          refine hnew (List.mem_map.mpr ⟨x, hx, ?_⟩)
          exact (List.cons.inj (List.append_cancel_left heq)).1.symm
        refine ⟨⟨hkeeps'.1.trans hkeeps.1, fun q hq => hkeeps'.2 q (hkeeps.2 q hq)⟩, ?_, ?_⟩
        · have hfirst : StandsAt (t.insert (place ++ [FileName.kept name]) (.file pieces.flatten))
              ((dir.child inner).child name) (place ++ [FileName.kept name]) (pieces.map .ok) :=
            ⟨pieces, rfl, hwritten.encodable, hlocate⟩
          exact List.forall_mem_cons.mpr ⟨hfirst.keep hkeeps' (hframe _ hother), hfiles⟩
        · intro q hq
          obtain ⟨hfirst, hothers⟩ := List.forall_mem_cons.mp hq
          rw [hframe q hothers]
          exact FileTree.entry_insert_of_ne t hfirst _

end

namespace SchemaCall

def files (c : SchemaCall) : List (Text × Json) :=
  c.stored.map fun x => (c.base ++ x.1, x.2)

theorem isName_of_mem_files (c : SchemaCall) : ∀ x ∈ c.files, Path.IsName x.1 := by
  intro x hx
  obtain ⟨y, hy, rfl⟩ := List.mem_map.mp hx
  exact isName_ending (Path.noSlash_stem _) (List.mem_map_of_mem hy : y.1 ∈ c.stored.map Prod.fst)

def portions (c : SchemaCall) : List (Text × List Portion) :=
  c.files.map fun x => (x.1, x.2.filePortions)

theorem files_nodup (c : SchemaCall) : (c.files.map fun x => FileName.kept x.1).Nodup := by
  rw [files, List.map_map]
  exact kept_endings_nodup c.base

end SchemaCall

theorem SchemaCall.writeAll_portions {t t' : FileTree} {dir : Path} {place : List Text} {disk : Disk}
    (c : SchemaCall)
    (hdir : t.locate (dir.child (Text.ofString "schemas")) = .ok (.directory place))
    (h : t.performAll disk (writes (dir.child (Text.ofString "schemas")) c.portions)
      = (.ok (), t')) :
    t.Keeps t'
      ∧ (∀ x ∈ c.files, StandsAt t' ((dir.child (Text.ofString "schemas")).child x.1)
        (place ++ [FileName.kept x.1]) x.2.filePortions)
      ∧ ∀ q, (∀ x ∈ c.files, q ≠ place ++ [FileName.kept x.1]) → t'.entry? q = t.entry? q := by
  have hnodup : (c.portions.map fun x => FileName.kept x.1).Nodup := by
    rw [portions, List.map_map]
    exact c.files_nodup
  have hnames : ∀ x ∈ c.portions, Path.IsName x.1 :=
    List.forall_mem_map.mpr c.isName_of_mem_files
  obtain ⟨hkeeps, hfiles, hframe⟩ := writeAll_names isName_schemas hdir hnames hnodup h
  refine ⟨hkeeps, ?_, fun q hq => hframe q (List.forall_mem_map.mpr hq)⟩
  exact fun x hx => hfiles (x.1, x.2.filePortions) (List.mem_map_of_mem hx)

/-- A call makes the directory and writes the three files into it. -/
theorem SchemaCall.work_eq (pipeline : Path) (c : SchemaCall)
    (hfault : SchemaFiles.fault? c.data = none) :
    (SchemaFiles.ofJson c.now pipeline c.artifact c.data).work (pipeline / "schemas")
      = .ok (.makeRoom (pipeline / "schemas") :: writes (pipeline / "schemas") c.portions) := by
  rw [SchemaFiles.ofJson, SchemaFiles.storeData, SchemaPaths.ofArtifact_eq, StoreData.work, hfault]
  rfl

theorem parent_schemas (pipeline : Path) (artifact : Text) :
    (SchemaPaths.ofArtifact pipeline artifact).schema.parent = pipeline / "schemas" := by
  rw [SchemaPaths.ofArtifact_eq]
  exact Path.parent_child _ _

theorem write_eq (t : FileTree) (pipeline : Path) (c : SchemaCall) (disk : Disk)
    (hfault : SchemaFiles.fault? c.data = none) :
    SchemaFiles.write t c.now pipeline c.artifact c.data disk
      = match t.makeDirectories (pipeline / "schemas") disk with
        | (.error e, files) => (.error (.file e), files)
        | (.ok (), files) =>
          match files.performAll disk (writes (pipeline / "schemas") c.portions) with
          | (.error e, files) => (.error (.file e), files)
          | (.ok (), files) => (.ok (SchemaPaths.ofArtifact pipeline c.artifact), files) := by
  rw [SchemaFiles.write, SchemaFiles.writeData]
  dsimp only
  rw [parent_schemas, StoreData.store, c.work_eq pipeline hfault]
  dsimp only
  have hroom : t.perform disk (.makeRoom (pipeline / "schemas"))
      = t.makeDirectories (pipeline / "schemas") disk := rfl
  rw [FileTree.performAll, hroom]
  rcases t.makeDirectories (pipeline / "schemas") disk with ⟨_ | _, made⟩
  · rfl
  · dsimp only
    rcases made.performAll disk (writes (pipeline / "schemas") c.portions) with ⟨_ | _, files⟩ <;> rfl

/-- What a call has made of the files: those of its base name hold what it stores, and nothing else
changes but that the directory is made. -/
theorem write_spec {t t' : FileTree} {pipeline : Path} {place : List Text}
    (hroom : t.Offers (pipeline / "schemas") place) (c : SchemaCall)
    (hok : (SchemaFiles.write t c.now pipeline c.artifact c.data).1.isOk = true)
    (ht' : (SchemaFiles.write t c.now pipeline c.artifact c.data).2 = t') :
    SchemaFiles.fault? c.data = none
      ∧ t'.locate (pipeline / "schemas") = .ok (.directory place)
      ∧ (∀ x ∈ c.files, x.2.isScalar = true ∧ t'.locate ((pipeline / "schemas").child x.1)
          = .ok (.file (place ++ [FileName.kept x.1]) x.2.filePieces.flatten))
      ∧ ∀ q, q ≠ place → (∀ x ∈ c.files, q ≠ place ++ [FileName.kept x.1]) →
        t'.entry? q = t.entry? q := by
  cases hfault : SchemaFiles.fault? c.data with
  | some f =>
      rw [SchemaFiles.write, SchemaFiles.writeData, StoreData.store, SchemaFiles.ofJson,
        SchemaFiles.storeData, StoreData.work, hfault] at hok
      cases hok
  | none =>
      obtain ⟨made, hmake, -, hdir, hmade⟩ := hroom.makeDirectories
      rw [write_eq t pipeline c {} hfault, hmake] at hok ht'
      rw [schemas_eq_child] at hok ht' hdir ⊢
      dsimp only at hok ht'
      split at hok
      · cases hok
      · rename_i after hwrite
        rw [hwrite] at ht'
        obtain rfl : after = t' := ht'
        obtain ⟨hkeeps, hfiles, hframe⟩ := c.writeAll_portions hdir hwrite
        refine ⟨rfl, hkeeps.locate_directory hdir, ?_, ?_⟩
        · intro x hx
          obtain ⟨-, hscalar, hlocate⟩ := (hfiles x hx).value
          exact ⟨hscalar, hlocate⟩
        · intro q hplace hq
          rw [hframe q hq, hmade q hplace]

/-! ## After any number of calls -/

/-- What the directory holds after some calls: for every base name, what the last call for it has
stored, and nothing if there was none. -/
structure Holds (pipeline : Path) (place : List Text) (calls : List SchemaCall) (t : FileTree) :
    Prop where
  room : t.locate (pipeline / "schemas") = .ok (.directory place)
    ∨ calls = [] ∧ t.locate (pipeline / "schemas") = .ok (.missing place)
  sound : ∀ c ∈ calls, SchemaFiles.fault? c.data = none
    ∧ ∀ x ∈ c.files, FileTree.textFault? ((pipeline / "schemas").child x.1).text = none
  absent : ∀ base, latestFor calls base = none → ∀ e ∈ endings,
    t.entry? (place ++ [FileName.kept (base ++ e)]) = none
  present : ∀ base c, latestFor calls base = some c → ∀ x ∈ c.stored,
    t.entry? (place ++ [FileName.kept (base ++ x.1)]) = some (.file x.2.filePieces.flatten)

variable {pipeline : Path} {place : List Text} {calls : List SchemaCall} {t t' : FileTree}

theorem holds_none (hroom : t.Offers (pipeline / "schemas") place)
    (hempty : ∀ name, t.entry? (place ++ [name]) = none) : Holds pipeline place [] t where
  room := hroom.imp_right fun h => ⟨rfl, h⟩
  sound := List.forall_mem_nil _
  absent _ _ _ _ := hempty _
  present _ _ h := by cases h

theorem Holds.offers (h : Holds pipeline place calls t) : t.Offers (pipeline / "schemas") place :=
  h.room.imp_right And.right

/-- A call that succeeds adds what it stores. -/
theorem Holds.call (h : Holds pipeline place calls t) (c : SchemaCall)
    (hok : (SchemaFiles.write t c.now pipeline c.artifact c.data).1.isOk = true) :
    Holds pipeline place (calls ++ [c])
      (SchemaFiles.write t c.now pipeline c.artifact c.data).2 := by
  obtain ⟨hfault, hdir, hfiles, hrest⟩ := write_spec h.offers c hok rfl
  have hframe : ∀ name, (∀ x ∈ c.files, name ≠ FileName.kept x.1) →
      FileTree.entry? (SchemaFiles.write t c.now pipeline c.artifact c.data).2 (place ++ [name])
        = t.entry? (place ++ [name]) := by
    intro name hname
    refine hrest _ (by simp) fun x hx heq => hname x hx ?_
    exact (List.cons.inj (List.append_cancel_left heq)).1
  -- whatever ending it has, a file of another base name is none of those that the call writes
  have hothers : ∀ base, FileName.kept c.base ≠ FileName.kept base → ∀ e ∈ endings,
      ∀ x ∈ c.files, FileName.kept (base ++ e) ≠ FileName.kept x.1 := by
    intro base hbase e he x hx
    obtain ⟨y, hy, rfl⟩ := List.mem_map.mp hx
    exact kept_ending_ne he (List.mem_map_of_mem hy : y.1 ∈ c.stored.map Prod.fst) hbase.symm
  refine ⟨Or.inl hdir, ?sound, ?absent, ?present⟩
  case sound =>
    intro d hd
    rcases List.mem_append.mp hd with hd | hd
    · exact h.sound d hd
    · rw [List.mem_singleton.mp hd]
      exact ⟨hfault, fun x hx => (FileTree.locate_eq_ok (hfiles x hx).2).1⟩
  case absent =>
    intro base hlatest e he
    rw [latestFor_append] at hlatest
    split at hlatest
    · cases hlatest
    · rename_i hbase
      rw [hframe _ (hothers base hbase e he)]
      exact h.absent base hlatest e he
  case present =>
    intro base d hlatest x hx
    have he : x.1 ∈ endings := (List.mem_map_of_mem hx : x.1 ∈ d.stored.map Prod.fst)
    rw [latestFor_append] at hlatest
    split at hlatest
    · rename_i hbase
      obtain rfl := Option.some.inj hlatest
      rw [kept_ending he, ← hbase, ← kept_ending he]
      exact FileTree.entry_of_file (hfiles _ (List.mem_map_of_mem hx)).2
    · rename_i hbase
      rw [hframe _ (hothers base hbase x.1 he)]
      exact h.present base d hlatest x hx

theorem StoredBy.holds {files : FileTree} (h : StoredBy pipeline files calls t)
    (hroom : files.Offers (pipeline / "schemas") place)
    (hempty : ∀ name, files.entry? (place ++ [name]) = none) : Holds pipeline place calls t := by
  induction h with
  | start => exact holds_none hroom hempty
  | call _ c hok ih => exact ih.call c hok

/-! ## Reading back -/

def Path.Fits (p : Path) : Prop :=
  (FileName.bytes p.text).length < FileTree.pathLimit
    ∧ (FileName.bytes p.name).length ≤ FileTree.nameLimit

instance (p : Path) : Decidable p.Fits :=
  inferInstanceAs (Decidable (_ ∧ _))

theorem readValue_of_absent {p : Path} (h : t.pathExists p = .ok false) :
    StoredSchema.readValue t p = .ok .null := by
  rw [StoredSchema.readValue, h]
  rfl

theorem readValue_of_file {p : Path} {q : List Text} {v : Json} (hv : v.isReadable = true)
    (hscalar : v.isScalar = true) (h : t.locate p = .ok (.file q v.filePieces.flatten)) :
    StoredSchema.readValue t p = .ok v := by
  have hexists : t.pathExists p = .ok true := by rw [FileTree.pathExists, FileTree.test, h]
  have hread : t.read p = .ok (Text.unifyLineEnds v.filePieces.flatten) := by
    rw [FileTree.read, h]
  rw [StoredSchema.readValue, hexists, hread]
  show (Json.read (Text.unifyLineEnds v.filePieces.flatten)).mapError LoadError.json = .ok v
  rw [Json.read_filePieces hv hscalar]
  rfl

section

variable {base e : Text}

theorem Holds.pathExists_of_absent (h : Holds pipeline place calls t)
    (hbase : CodePoint.ofChar '/' ∉ base) (hlatest : latestFor calls base = none)
    (he : e ∈ endings) (hfits : ((pipeline / "schemas").child (base ++ e)).Fits) :
    t.pathExists ((pipeline / "schemas").child (base ++ e)) = .ok false := by
  have hroom := h.room
  rw [schemas_eq_child] at hroom hfits ⊢
  rw [FileTree.pathExists, FileTree.test]
  cases htext : FileTree.textFault?
      ((pipeline.child (Text.ofString "schemas")).child (base ++ e)).text with
  | some f =>
      rw [FileTree.locate_of_fault htext]
      exact if_pos (meansAbsence_of_textFault htext hfits.1)
  | none =>
      rcases hroom with hdir | ⟨-, hmissing⟩
      · have hlength := hfits.2
        rw [Path.name_child] at hlength
        rw [FileTree.locate_name (by decide) hdir (isName_ending hbase he) hlength htext,
          FileTree.found, h.absent base hlatest e he]
      · rw [FileTree.locate_child (by decide) hmissing htext]
        rfl

theorem mem_of_latestFor {c : SchemaCall} (h : latestFor calls base = some c) :
    c ∈ calls ∧ FileName.kept c.base = FileName.kept base := by
  have hmem := List.mem_filter.mp (List.mem_of_getLast? h)
  exact ⟨hmem.1, of_decide_eq_true hmem.2⟩

/-- A name that goes by the same bytes as one that has been written can be looked up. -/
theorem textFault_of_kept_eq {base' : Text} {dir : Path}
    (hkept : FileName.kept base' = FileName.kept base)
    (hwritten : FileTree.textFault? ((dir / "schemas").child (base' ++ e)).text = none)
    (hlength : (FileName.bytes ((dir / "schemas").child (base ++ e)).text).length
      < FileTree.pathLimit) :
    FileTree.textFault? ((dir / "schemas").child (base ++ e)).text = none := by
  rw [schemas_eq_child] at hwritten hlength ⊢
  rw [textFault_eq_none_iff] at hwritten ⊢
  rw [Path.text_child_child] at hwritten hlength ⊢
  obtain ⟨hcovers, hnul, -⟩ := hwritten
  simp only [List.mem_append, List.mem_cons, not_or] at hcovers hnul ⊢
  refine ⟨?_, ⟨hnul.1, hnul.2.1, ?_, hnul.2.2.2⟩, hlength⟩
  · -- two names that are kept as one have bytes both or neither
    have hbase : ∀ c ∈ base, Encoding.fileName.covers c = true := by
      rw [← FileName.covers_kept, ← hkept, FileName.covers_kept]
      exact fun c hc => hcovers c (Or.inr (Or.inr (Or.inl hc)))
    rintro c (hc | hc | hc | hc)
    · exact hcovers c (Or.inl hc)
    · exact hcovers c (Or.inr (Or.inl hc))
    · exact hbase c hc
    · exact hcovers c (Or.inr (Or.inr (Or.inr hc)))
  · have hascii : (CodePoint.ofNat 0).val < 0x80 := by decide
    rw [← FileName.mem_kept_iff hascii, ← hkept, FileName.mem_kept_iff hascii]
    exact hnul.2.2.1

/-- What the last call has stored is read back. -/
theorem Holds.readValue_of_present (h : Holds pipeline place calls t)
    (hbase : CodePoint.ofChar '/' ∉ base) {c : SchemaCall} (hlatest : latestFor calls base = some c)
    {x : Text × Json} (hx : x ∈ c.stored) (hplain : x.2.isPlain = true)
    (hfits : ((pipeline / "schemas").child (base ++ x.1)).Fits) :
    StoredSchema.readValue t ((pipeline / "schemas").child (base ++ x.1)) = .ok x.2 := by
  obtain ⟨hc, hkept⟩ := mem_of_latestFor hlatest
  have he : x.1 ∈ endings := (List.mem_map_of_mem hx : x.1 ∈ c.stored.map Prod.fst)
  have hdir : t.locate (pipeline / "schemas") = .ok (.directory place) := by
    rcases h.room with hdir | ⟨hnone, -⟩
    · exact hdir
    · rw [hnone] at hc
      cases hc
  have hwritten := (h.sound c hc).2 (c.base ++ x.1, x.2) (List.mem_map.mpr ⟨x, hx, rfl⟩)
  have htext := textFault_of_kept_eq hkept hwritten hfits.1
  have hlength := hfits.2
  rw [Path.name_child] at hlength
  rw [schemas_eq_child] at hdir htext ⊢
  refine readValue_of_file (Json.isReadable_of_isPlain _ hplain) (Json.isScalar_of_isPlain _ hplain)
    (q := place ++ [FileName.kept (base ++ x.1)]) ?_
  rw [FileTree.locate_name (by decide) hdir (isName_ending hbase he) hlength htext,
    FileTree.found, h.present base c hlatest x hx]

end

theorem SchemaCall.isPlain_stored {c : SchemaCall} (h : c.isPlain = true) :
    ∀ x ∈ c.stored, x.2.isPlain = true := by
  simp only [isPlain, List.all_cons, List.all_nil, Bool.and_true, Bool.and_eq_true] at h
  obtain ⟨hschema, hexample, hreasoning⟩ := h
  intro x hx
  simp only [stored, List.mem_cons, List.not_mem_nil, or_false] at hx
  rcases hx with rfl | rfl | rfl
  · exact hschema
  · exact hexample
  · have hnames : ["source", "generatedAt", "reasoning"].Nodup := by decide
    refine Json.isPlain_object hnames ?_
    simp only [List.forall_mem_cons]
    exact ⟨Text.isScalar_ofString _, c.now.isScalar_text, hreasoning, List.forall_mem_nil _⟩

/-- What is loaded after the last call for a base name: the schema, the example and their origin
that came with the call, or nothing if there was no call. -/
inductive IsLoaded (loaded : Except LoadError StoredSchema) : Option SchemaCall → Prop
  | nothing (h : loaded = .ok { schema := .null, sample := .null, origin := .null }) :
      IsLoaded loaded none
  | stored {c : SchemaCall} {schema sample reasoning : Json}
      (hschema : c.data.get? "schema" = some schema) (hsample : c.data.get? "example" = some sample)
      (hreasoning : c.data.get? "reasoning" = some reasoning)
      (h : loaded = .ok { schema, sample, origin := .object [("source", .ofString "llm-deduction"),
        ("generatedAt", .str c.now.text), ("reasoning", reasoning)] }) :
      IsLoaded loaded (some c)

theorem load_of_values {pipeline : Path} {artifact : Text} {schema sample origin : Json}
    (hschema : StoredSchema.readValue t ((pipeline / "schemas").child
      ((Path.ofText artifact).stem ++ Text.ofString ".schema.json")) = .ok schema)
    (hsample : StoredSchema.readValue t ((pipeline / "schemas").child
      ((Path.ofText artifact).stem ++ Text.ofString ".sample.json")) = .ok sample)
    (horigin : StoredSchema.readValue t ((pipeline / "schemas").child
      ((Path.ofText artifact).stem ++ Text.ofString ".meta.json")) = .ok origin) :
    StoredSchema.load t pipeline artifact = .ok { schema, sample, origin } := by
  rw [StoredSchema.load, SchemaPaths.ofArtifact_eq]
  dsimp only
  rw [hschema, hsample, horigin]
  rfl

/-- What is loaded for an artifact is what the last call for its base name has stored. -/
theorem Holds.load (h : Holds pipeline place calls t) (hplain : ∀ c ∈ calls, c.isPlain = true)
    {artifact : Text} (hfits : ∀ p ∈ (SchemaPaths.ofArtifact pipeline artifact).toList, p.Fits) :
    IsLoaded (StoredSchema.load t pipeline artifact) (latest calls artifact) := by
  have hbase := Path.noSlash_stem artifact
  rw [SchemaPaths.ofArtifact_eq] at hfits
  have hfile : ∀ e ∈ endings,
      ((pipeline / "schemas").child ((Path.ofText artifact).stem ++ e)).Fits := by
    simpa [SchemaPaths.toList, endings] using hfits
  cases hlatest : latest calls artifact with
  | none =>
      have habsent : ∀ e ∈ endings, StoredSchema.readValue t
          ((pipeline / "schemas").child ((Path.ofText artifact).stem ++ e)) = .ok .null := by
        intro e he
        exact readValue_of_absent (h.pathExists_of_absent hbase hlatest he (hfile e he))
      simp only [endings, List.forall_mem_cons] at habsent
      obtain ⟨hschema, hsample, horigin, -⟩ := habsent
      exact .nothing (load_of_values hschema hsample horigin)
  | some c =>
      have hc := (mem_of_latestFor hlatest).1
      have hpresent : ∀ x ∈ c.stored, StoredSchema.readValue t
          ((pipeline / "schemas").child ((Path.ofText artifact).stem ++ x.1)) = .ok x.2 := by
        intro x hx
        exact h.readValue_of_present hbase hlatest hx
          (SchemaCall.isPlain_stored (hplain c hc) x hx)
          (hfile x.1 (List.mem_map_of_mem hx : x.1 ∈ c.stored.map Prod.fst))
      obtain ⟨schema, sample, reasoning, h1, h2, h3⟩ :=
        SchemaFiles.fields_of_fault_eq_none (h.sound c hc).1
      simp only [SchemaCall.stored, SchemaFiles.origin, h1, h2, h3, Option.getD_some,
        List.forall_mem_cons] at hpresent
      obtain ⟨hschema, hsample, horigin, -⟩ := hpresent
      exact .stored h1 h2 h3 (load_of_values hschema hsample horigin)

/-- **The latest schema of an artifact is loaded.** Let the directory of the schemas be empty, or
missing where it can be made, and let any number of calls store plain values there. What is loaded
for an artifact afterwards is what the last call for the same base name has stored: its schema, its
example and their origin. If there was no such call, nothing is loaded. Base names are the same if
they name the same files, and the names of the files must not be too long. -/
theorem load_latest {files files' : FileTree} {pipeline : Path} {place : List Text}
    {calls : List SchemaCall} (hroom : files.Offers (pipeline / "schemas") place)
    (hempty : ∀ name, files.entry? (place ++ [name]) = none)
    (hcalls : StoredBy pipeline files calls files')
    (hplain : ∀ c ∈ calls, c.isPlain = true) {artifact : Text}
    (hfits : ∀ p ∈ (SchemaPaths.ofArtifact pipeline artifact).toList, p.Fits) :
    IsLoaded (StoredSchema.load files' pipeline artifact) (latest calls artifact) :=
  (hcalls.holds hroom hempty).load hplain hfits

def emptyStore : FileTree :=
  { entries := [([Text.ofString "p"], .directory),
      ([Text.ofString "p", Text.ofString "schemas"], .directory)]
    current := [] }

def emptyStorePath : Path :=
  { root := [], parts := [Text.ofString "p"] }

theorem emptyStore_offers : emptyStore.Offers (emptyStorePath / "schemas")
    [Text.ofString "p", Text.ofString "schemas"] :=
  Or.inl rfl

theorem emptyStore_empty (name : Text) :
    emptyStore.entry? ([Text.ofString "p", Text.ofString "schemas"] ++ [name]) = none :=
  rfl

def numberCall (artifact : Text) (value : Int) : SchemaCall where
  now := ⟨2026, 1, 2, 3, 4, 5, 0⟩
  artifact := artifact
  data := .object [("schema", .object [("type", .ofString "integer")]), ("example", .int value),
    ("reasoning", .ofString "a number")]

set_option maxRecDepth 100000 in
theorem twoReports_stored : ∃ files', StoredBy emptyStorePath emptyStore
    [numberCall (Text.ofString "report.json") 1, numberCall (Text.ofString "drafts/report.txt") 2]
    files' :=
  ⟨_, .call (.call .start (numberCall (Text.ofString "report.json") 1) (by decide +kernel))
    (numberCall (Text.ofString "drafts/report.txt") 2) (by decide +kernel)⟩

/-- The second of two calls has overwritten what the first one stored. -/
theorem twoReports_latest : ∃ files', StoredBy emptyStorePath emptyStore
      [numberCall (Text.ofString "report.json") 1, numberCall (Text.ofString "drafts/report.txt") 2]
      files'
    ∧ ∃ s, StoredSchema.load files' emptyStorePath (Text.ofString "report.json") = .ok s
      ∧ s.sample = .int 2 := by
  obtain ⟨files', hstored⟩ := twoReports_stored
  have hfits : ∀ p ∈ (SchemaPaths.ofArtifact emptyStorePath
      (Text.ofString "report.json")).toList, p.Fits := by
    decide +kernel
  have hload := load_latest emptyStore_offers emptyStore_empty hstored (by decide +kernel) hfits
  cases hload with
  | stored _ hsample _ hload =>
      exact ⟨files', hstored, _, hload, (Option.some.inj hsample).symm⟩

def longName : Text :=
  List.replicate 300 (CodePoint.ofChar 'a')

set_option maxRecDepth 100000 in
theorem longName_fails :
    (StoredSchema.load emptyStore emptyStorePath longName).isOk = false := by
  decide +kernel

def accentedCall : SchemaCall :=
  numberCall (Text.ofString "\u00e9") 1

theorem accentedCall_stored :
    ∃ files', StoredBy emptyStorePath emptyStore [accentedCall] files' :=
  ⟨_, .call .start accentedCall (by decide +kernel)⟩

/-- The two bytes of that letter, each as a code point of its own. -/
def spelledName : Text :=
  [CodePoint.ofNat 0xDCC3, CodePoint.ofNat 0xDCA9]

theorem latest_spelledName : latest [accentedCall] spelledName = some accentedCall := by
  have hsame : FileName.kept accentedCall.base = FileName.kept (Path.ofText spelledName).stem := by
    decide +kernel
  exact (latestFor_append [] accentedCall _).trans (if_pos hsame)

/-- A name that is too long is not looked up at all, and a name with raw bytes is found under the
name that its bytes spell. -/
theorem load_depends_on_file_names :
    (¬ ∀ (files files' : FileTree) (pipeline : Path) (place : List Text) (calls : List SchemaCall)
      (artifact : Text), files.Offers (pipeline / "schemas") place →
      (∀ name, files.entry? (place ++ [name]) = none) → StoredBy pipeline files calls files' →
      (∀ c ∈ calls, c.isPlain = true) →
      (StoredSchema.load files' pipeline artifact).isOk = true)
    ∧ ¬ ∀ (files files' : FileTree) (pipeline : Path) (place : List Text)
      (calls : List SchemaCall) (artifact : Text), files.Offers (pipeline / "schemas") place →
      (∀ name, files.entry? (place ++ [name]) = none) → StoredBy pipeline files calls files' →
      (∀ c ∈ calls, c.isPlain = true) → (∀ c ∈ calls, c.base ≠ (Path.ofText artifact).stem) →
      ∀ s, StoredSchema.load files' pipeline artifact = .ok s → s.sample = .null := by
  constructor
  · intro h
    have hok := h emptyStore emptyStore emptyStorePath _ [] longName emptyStore_offers
      emptyStore_empty .start (List.forall_mem_nil _)
    rw [longName_fails] at hok
    cases hok
  · intro h
    obtain ⟨files', hstored⟩ := accentedCall_stored
    have hplain : ∀ c ∈ [accentedCall], c.isPlain = true := by decide +kernel
    have hother : ∀ c ∈ [accentedCall], c.base ≠ (Path.ofText spelledName).stem := by
      decide +kernel
    have hfits : ∀ p ∈ (SchemaPaths.ofArtifact emptyStorePath spelledName).toList, p.Fits := by
      decide +kernel
    have hload := (hstored.holds emptyStore_offers emptyStore_empty).load hplain hfits
    rw [latest_spelledName] at hload
    cases hload with
    | @stored _ _ sample _ _ hsample _ hload =>
        have hnull := h _ _ _ _ _ spelledName emptyStore_offers emptyStore_empty hstored hplain
          hother _ hload
        obtain rfl : Json.int 1 = sample := Option.some.inj hsample
        cases hnull

end TaskContract
