import TaskContract.Proofs.Chat.Exchanges
import TaskContract.Proofs.Files.Spelling
import TaskContract.Proofs.Pipeline.Stored
import TaskContract.Proofs.Store.Room

/-!
# Deductions that are made again elsewhere

The schemas that a run has deduced for a task, side by side, can be deduced again one after another
into another directory: the same exchanges on the wire give the same schemas, and where there is room
for them they are stored. The two directories then hold the same texts under the same names, if of
all artifacts with one base name the last in order is also the one that was complete last.
-/

namespace TaskContract

/-! ## The same replies -/

/-- Requests one after another go by the exchanges that they meet. -/
theorem Chat.goesByExchanges_replies (chat : Chat.Settings) (rs : List Chat.Request) :
    Chat.GoesByExchanges fun w =>
      ((Chat.Client.overWire chat).replies rs w, (Chat.Client.overWire chat).after rs w) := by
  induction rs with
  | nil => exact Chat.goesByExchanges_pure []
  | cons r rest ih =>
      exact (Chat.goesByExchanges_overWire chat r).andThen fun reply =>
        ih.andThen fun replies => Chat.goesByExchanges_pure (reply :: replies)

/-! ## Where there is room -/

theorem Path.mem_text_child {dir : Path} {name : Text} {ch : CodePoint}
    (h : ch ∈ (dir.child name).text) : ch ∈ dir.text ∨ ch = CodePoint.ofChar '/' ∨ ch ∈ name := by
  have hchild : (dir.child name).parts ≠ [] := List.append_ne_nil_of_right_ne_nil _ (by simp)
  rw [text_of_parts hchild] at h
  have hjoined : ch ∈ dir.root ++ Text.join (Text.ofString "/") (dir.parts ++ [name]) := h
  cases hparts : dir.parts with
  | nil =>
      rw [hparts, List.nil_append, List.mem_append] at hjoined
      rcases hjoined with hroot | hname
      · left
        have hempty : dir.root.isEmpty = false := by
          cases hroot' : dir.root with
          | nil => rw [hroot'] at hroot; cases hroot
          | cons c rest => rfl
        rw [text, hempty, Bool.false_and]
        exact List.mem_append_left _ hroot
      · exact Or.inr (Or.inr hname)
  | cons part rest =>
      have hne : dir.parts ≠ [] := by rw [hparts]; exact List.cons_ne_nil _ _
      rw [Text.join_append_singleton _ hne, ← List.append_assoc, ← List.append_assoc,
        ← text_of_parts hne] at hjoined
      rcases List.mem_append.mp hjoined with hfront | hname
      · rcases List.mem_append.mp hfront with hdir | hslash
        · exact Or.inl hdir
        · exact Or.inr (Or.inl (List.mem_singleton.mp hslash))
      · exact Or.inr (Or.inr hname)

def CanBeNamed (name : Text) : Prop :=
  ∀ ch ∈ name, Encoding.fileName.covers ch = true ∧ ch ≠ CodePoint.ofNat 0

theorem canBeNamed_schemas : CanBeNamed (Text.ofString "schemas") := by
  unfold CanBeNamed
  decide

theorem canBeNamed_of_textFault {text : Text} (h : FileTree.textFault? text = none) :
    CanBeNamed text := by
  obtain ⟨hcovers, hnul, -⟩ := textFault_eq_none_iff.mp h
  intro ch hch
  refine ⟨hcovers ch hch, ?_⟩
  rintro rfl
  exact hnul hch

theorem textFault_of_canBeNamed {text : Text} (h : CanBeNamed text)
    (hlength : (FileName.bytes text).length < FileTree.pathLimit) :
    FileTree.textFault? text = none :=
  textFault_eq_none_iff.mpr
    ⟨fun ch hch => (h ch hch).1, fun hnul => (h _ hnul).2 rfl, hlength⟩

theorem canBeNamed_child {dir : Path} {name : Text} (hdir : CanBeNamed dir.text)
    (hname : CanBeNamed name) : CanBeNamed (dir.child name).text := by
  intro ch hch
  rcases Path.mem_text_child hch with hch | rfl | hch
  · exact hdir ch hch
  · decide
  · exact hname ch hch

theorem HasFiles.canBeNamed {l : PipelineLocation} {artifact : Text} {t : FileTree}
    {place : List Text} (h : HasFiles l artifact t place) : ∀ e ∈ endings,
      (FileName.bytes ((Path.ofText artifact).stem ++ e)).length ≤ FileTree.nameLimit
        ∧ CanBeNamed ((Path.ofText artifact).stem ++ e) := by
  intro e he
  obtain ⟨old, hlocate⟩ := h.files e he
  rw [schemas_eq_child] at hlocate
  obtain ⟨_, _, hlength, _⟩ := FileTree.directory_of_child isName_schemas
    (isName_ending (Path.noSlash_stem artifact) he) hlocate
  refine ⟨hlength, ?_⟩
  have hnamed := canBeNamed_of_textFault (FileTree.locate_eq_ok hlocate).1
  rw [Path.text_child_child] at hnamed
  intro ch hch
  exact hnamed ch (List.mem_append_right _ (List.mem_cons_of_mem _ hch))

/-- Are the paths of the files for the schema of an artifact short enough to be looked up? -/
def FitsBelow (output : Path) (a : ArtifactWrite) : Prop :=
  ∀ e ∈ endings, (FileName.bytes
    ((output / "schemas").child ((Path.ofText a.fileName).stem ++ e)).text).length
      < FileTree.pathLimit

/-- In an empty directory there is room for schemas whose paths can be looked up. -/
theorem schemaRoom_of_empty {u : FileTree} {output : Text} {place : List Text}
    (hlocate : u.locate (Path.ofText output) = .ok (.directory place))
    (hempty : ∀ q, q ≠ [] → u.entry? (place ++ q) = none) (hfits : FitsBelow (Path.ofText output) a) :
    SchemaRoom u (Path.ofText output) (place ++ [Text.ofString "schemas"]) := by
  have hlength : (FileName.bytes ((Path.ofText output).child (Text.ofString "schemas")).text).length
      < FileTree.pathLimit := by
    have hfile := hfits (Text.ofString ".schema.json") (by decide)
    rw [schemas_eq_child, Path.text_child_child, FileName.bytes, List.flatMap_append,
      List.length_append] at hfile
    exact (Nat.le_add_right _ _).trans_lt hfile
  have htext := textFault_of_canBeNamed (canBeNamed_child
    (canBeNamed_of_textFault (FileTree.locate_eq_ok hlocate).1) canBeNamed_schemas) hlength
  have hentry : ∀ name more, u.entry? (place ++ name :: more) = none := fun name more =>
    hempty (name :: more) (List.cons_ne_nil name more)
  refine ⟨Or.inr ?_, fun name => ?_⟩
  · rw [schemas_eq_child, FileTree.locate_child_ofText isName_schemas (by decide) hlocate htext,
      show FileName.kept (Text.ofString "schemas") = Text.ofString "schemas" by decide,
      FileTree.found, hentry]
  · rw [List.append_assoc, List.singleton_append, hentry]
    intro h
    cases h

/-! ## Deductions one after another -/

structure Deduces {σ : Type} (c : Conditions σ) (l : PipelineLocation) (t : TaskWork)
    (start : FileTree × σ) (d : Deduction) (stop : FileTree × σ) : Prop where
  schema : (c.client (deductionRequest c.model t.code d.artifact) start.2).1.schema
    d.artifact.fileName = .ok d.schema
  client : (c.client (deductionRequest c.model t.code d.artifact) start.2).2 = stop.2
  store : ∃ paths, SchemaFiles.write start.1 c.now l.configDir d.artifact.fileName d.schema.toJson
    = (.ok paths, stop.1)

inductive DeducesInTurn {σ : Type} (c : Conditions σ) (l : PipelineLocation) (t : TaskWork) :
    FileTree × σ → List Deduction → FileTree × σ → Prop where
  | nil (start : FileTree × σ) : DeducesInTurn c l t start [] start
  | cons {start middle stop : FileTree × σ} {d : Deduction} {rest : List Deduction}
      (first : Deduces c l t start d middle) (others : DeducesInTurn c l t middle rest stop) :
      DeducesInTurn c l t start (d :: rest) stop

/-- What has been deduced can be stored anywhere: it is sound, its values can be written, and its
files have names. -/
structure Deduction.CanBeStored (now : Timestamp) (d : Deduction) : Prop where
  sound : SchemaFiles.fault? d.schema.toJson = none
  values : ∀ x ∈ d.schema.stored now, x.2.integersFit = true ∧ x.2.isScalar = true
  named : ∀ e ∈ endings,
    (FileName.bytes ((Path.ofText d.artifact.fileName).stem ++ e)).length ≤ FileTree.nameLimit
      ∧ CanBeNamed ((Path.ofText d.artifact.fileName).stem ++ e)

/-- What can be stored is, where there is room for it. -/
theorem SchemaRoom.store {u : FileTree} {output : Path} {place : List Text}
    (h : SchemaRoom u output place) {now : Timestamp} {d : Deduction} (hd : d.CanBeStored now)
    (houtput : CanBeNamed output.text) (hfits : FitsBelow output d.artifact) :
    ∃ paths u', SchemaFiles.write u now output d.artifact.fileName d.schema.toJson = (.ok paths, u')
      ∧ SchemaRoom u' output place := by
  let call : SchemaCall := ⟨now, d.artifact.fileName, d.schema.toJson⟩
  have hfile : ∀ x ∈ call.files, ∃ y ∈ d.schema.stored now,
      x = ((Path.ofText d.artifact.fileName).stem ++ y.1, y.2) := by
    intro x hx
    obtain ⟨y, hy, rfl⟩ := List.mem_map.mp hx
    exact ⟨y, hy, rfl⟩
  have hlengths : ∀ x ∈ call.files, (FileName.bytes x.1).length ≤ FileTree.nameLimit := by
    intro x hx
    obtain ⟨y, hy, rfl⟩ := hfile x hx
    exact (hd.named y.1 (DeducedSchema.ending_of_mem hy)).1
  have htexts : ∀ x ∈ call.files,
      FileTree.textFault? ((output / "schemas").child x.1).text = none := by
    intro x hx
    obtain ⟨y, hy, rfl⟩ := hfile x hx
    have he := DeducedSchema.ending_of_mem hy
    have hdir : CanBeNamed (output / "schemas").text := by
      rw [schemas_eq_child]
      exact canBeNamed_child houtput canBeNamed_schemas
    exact textFault_of_canBeNamed (canBeNamed_child hdir (hd.named y.1 he).2) (hfits y.1 he)
  have hvalues : ∀ x ∈ call.files, x.2.integersFit = true ∧ x.2.isScalar = true := by
    intro x hx
    obtain ⟨y, hy, rfl⟩ := hfile x hx
    exact hd.values y hy
  obtain ⟨u', hwrite, hroom⟩ := h.write call hd.sound hlengths htexts hvalues
  exact ⟨_, u', hwrite, hroom⟩

section

variable {σ : Type} {c : Conditions σ} {l : PipelineLocation} {t : TaskWork}

/-- Where the client gives the replies from which schemas come, these are deduced one after another,
and stored if there is room for them. -/
theorem exists_deducesInTurn {ds : List Deduction} {u : FileTree} {v : σ} {place : List Text}
    (hstored : ∀ d ∈ ds, d.CanBeStored c.now)
    (hreplies : List.Forall₂ (fun reply d => Chat.Reply.schema reply d.artifact.fileName = .ok d.schema)
      (c.client.replies (ds.map fun d => deductionRequest c.model t.code d.artifact) v) ds)
    (hroom : ∀ d ∈ ds, SchemaRoom u l.configDir place) (houtput : CanBeNamed l.configDir.text)
    (hfits : ∀ d ∈ ds, FitsBelow l.configDir d.artifact) :
    ∃ stop, DeducesInTurn c l t (u, v) ds stop := by
  induction ds generalizing u v with
  | nil => exact ⟨_, .nil _⟩
  | cons d rest ih =>
      obtain ⟨hd, hstored⟩ := List.forall_mem_cons.mp hstored
      obtain ⟨hfit, hfits⟩ := List.forall_mem_cons.mp hfits
      cases hreplies with
      | cons hschema hreplies =>
          obtain ⟨paths, u', hwrite, hroom'⟩ :=
            (hroom d List.mem_cons_self).store hd houtput hfit
          obtain ⟨stop, hrest⟩ := ih hstored hreplies (fun _ _ => hroom') hfits
          exact ⟨stop, .cons ⟨hschema, rfl, paths, hwrite⟩ hrest⟩

end

/-! ## What is stored in both places -/

def schemaNames (artifacts : List ArtifactWrite) : List Text :=
  artifacts.flatMap fun a => endings.map fun e => keptBase a.fileName ++ e

theorem mem_schemaNames {artifacts : List ArtifactWrite} {name : Text} :
    name ∈ schemaNames artifacts
      ↔ ∃ a ∈ artifacts, ∃ e ∈ endings, keptBase a.fileName ++ e = name := by
  simp only [schemaNames, List.mem_flatMap, List.mem_map]

/-- Files with some texts are put in a directory, which may be made for them, and nothing else
changes. -/
structure FileTree.PutsIn (t t' : FileTree) (dir : Path) (place : List Text)
    (files : List (Text × Text)) : Prop where
  located : files ≠ [] → t'.locate dir = .ok (.directory place)
  stored : ∀ x ∈ files, t'.entry? (place ++ [x.1]) = some (.file x.2)
  frame : ∀ q, (∀ x ∈ files, q ≠ place ++ [x.1]) → (files ≠ [] → q ≠ place) →
    t'.entry? q = t.entry? q

/-- The files for the schemas of artifacts hold what the last deduction for each has stored, and
nothing else changes. -/
structure HoldsLast (now : Timestamp) (l : PipelineLocation) (artifacts : List ArtifactWrite)
    (ds : List Deduction) (t t' : FileTree) (place : List Text) : Prop where
  located : artifacts ≠ [] → t'.locate (l.configDir / "schemas") = .ok (.directory place)
  last : ∀ a ∈ artifacts, ∃ d, lastFor a.fileName ds = some d ∧ ∀ e ∈ endings,
    t'.entry? (place ++ [keptBase a.fileName ++ e]) = some (.file (d.schema.fileText now e))
  frame : ∀ q, (∀ name ∈ schemaNames artifacts, q ≠ place ++ [name]) →
    (artifacts ≠ [] → q ≠ place) → t'.entry? q = t.entry? q

section

variable {now : Timestamp} {l l' : PipelineLocation} {artifacts : List ArtifactWrite}
  {ds ds' : List Deduction} {t t' u u' : FileTree} {place place' : List Text}

/-- Where the last deductions are the same, so are the texts of the files. -/
theorem HoldsLast.agree (h : HoldsLast now l artifacts ds t t' place)
    (h' : HoldsLast now l' artifacts ds' u u' place')
    (hlast : ∀ a ∈ artifacts, lastFor a.fileName ds = lastFor a.fileName ds') :
    ∀ name ∈ schemaNames artifacts, ∃ text,
      t'.entry? (place ++ [name]) = some (.file text)
        ∧ u'.entry? (place' ++ [name]) = some (.file text) := by
  intro name hname
  obtain ⟨a, ha, e, he, rfl⟩ := mem_schemaNames.mp hname
  obtain ⟨d, hd, htexts⟩ := h.last a ha
  obtain ⟨d', hd', htexts'⟩ := h'.last a ha
  obtain rfl := Option.some.inj (hd.symm.trans ((hlast a ha).trans hd'))
  exact ⟨_, htexts e he, htexts' e he⟩

theorem HoldsLast.putsIn (h : HoldsLast now l artifacts ds t t' place) {files : List (Text × Text)}
    (hnames : files.map Prod.fst = schemaNames artifacts)
    (hstored : ∀ x ∈ files, t'.entry? (place ++ [x.1]) = some (.file x.2)) :
    t.PutsIn t' (l.configDir / "schemas") place files := by
  have hsome : files ≠ [] ↔ artifacts ≠ [] := by
    cases artifacts with
    | nil =>
        obtain rfl := List.map_eq_nil_iff.mp hnames
        exact ⟨absurd rfl, absurd rfl⟩
    | cons a rest =>
        have hfiles : files ≠ [] := by
          rintro rfl
          cases hnames
        exact ⟨fun _ => List.cons_ne_nil a rest, fun _ => hfiles⟩
  refine ⟨fun hne => h.located (hsome.mp hne), hstored, ?_⟩
  intro q hfiles hplace
  refine h.frame q ?_ fun hne => hplace (hsome.mpr hne)
  intro name hname
  obtain ⟨x, hx, rfl⟩ := List.mem_map.mp (hnames ▸ hname)
  exact hfiles x hx

/-- Where the last deductions are the same, the same files are put in the directories. -/
theorem HoldsLast.putAlike (h : HoldsLast now l artifacts ds t t' place)
    (h' : HoldsLast now l' artifacts ds' u u' place')
    (hlast : ∀ a ∈ artifacts, lastFor a.fileName ds = lastFor a.fileName ds') :
    ∃ files, files.map Prod.fst = schemaNames artifacts
      ∧ t.PutsIn t' (l.configDir / "schemas") place files
      ∧ u.PutsIn u' (l'.configDir / "schemas") place' files := by
  choose! text htext htext' using h.agree h' hlast
  let files := (schemaNames artifacts).map fun name => (name, text name)
  have hnames : files.map Prod.fst = schemaNames artifacts := by
    rw [List.map_map]
    exact List.map_id _
  refine ⟨files, hnames, h.putsIn hnames ?_, h'.putsIn hnames ?_⟩
  · intro x hx
    obtain ⟨name, hname, rfl⟩ := List.mem_map.mp hx
    exact htext name hname
  · intro x hx
    obtain ⟨name, hname, rfl⟩ := List.mem_map.mp hx
    exact htext' name hname

end

/-! ## One after another -/

section

variable {σ : Type} {c : Conditions σ} {l : PipelineLocation} {t : TaskWork}
  {start stop : FileTree × σ} {place : List Text}

theorem lastFor_cons (artifact : Text) (d : Deduction) (rest : List Deduction) :
    lastFor artifact (d :: rest) = (lastFor artifact rest).or
      (if keptBase d.artifact.fileName = keptBase artifact then some d else none) := by
  rw [← List.singleton_append, lastFor_append]
  congr 1
  rw [lastFor, List.filter_singleton, Deduction.isFor]
  by_cases h : keptBase d.artifact.fileName = keptBase artifact
  · rw [if_pos h, decide_eq_true h]
    rfl
  · rw [if_neg h, decide_eq_false h]
    rfl

/-- What a deduction makes of the files: those of its artifact hold what it stores, and nothing else
changes but that the directory is made. -/
theorem Deduces.stores {d : Deduction} (h : Deduces c l t start d stop)
    (hoffers : start.1.Offers (l.configDir / "schemas") place) :
    stop.1.locate (l.configDir / "schemas") = .ok (.directory place)
      ∧ (∀ e ∈ endings, FileTree.entry? stop.1 (place ++ [keptBase d.artifact.fileName ++ e])
        = some (.file (d.schema.fileText c.now e)))
      ∧ ∀ q, q ≠ place → (∀ e ∈ endings, q ≠ place ++ [keptBase d.artifact.fileName ++ e]) →
        FileTree.entry? stop.1 q = FileTree.entry? start.1 q := by
  obtain ⟨paths, hstore⟩ := h.store
  obtain ⟨-, hdir, hfiles, hframe⟩ :=
    write_spec hoffers ⟨c.now, d.artifact.fileName, d.schema.toJson⟩
      (congrArg (fun r => r.1.isOk) hstore) (congrArg Prod.snd hstore)
  refine ⟨hdir, ?_, fun q hplace hq => hframe q hplace ?_⟩
  · intro e he
    rw [← DeducedSchema.stored_endings c.now d.schema] at he
    obtain ⟨x, hx, rfl⟩ := List.mem_map.mp he
    have hstored := hfiles ((Path.ofText d.artifact.fileName).stem ++ x.1, x.2)
      (List.mem_map.mpr ⟨x, hx, rfl⟩)
    have hlocate := hstored.2
    rw [kept_ending (DeducedSchema.ending_of_mem hx)] at hlocate
    rw [DeducedSchema.fileText_of_mem hx]
    exact FileTree.entry_of_file hlocate
  · intro x hx
    obtain ⟨y, hy, rfl⟩ := List.mem_map.mp hx
    have he : y.1 ∈ endings := DeducedSchema.ending_of_mem hy
    rw [kept_ending he]
    exact hq y.1 he

theorem DeducesInTurn.stores {ds : List Deduction} (h : DeducesInTurn c l t start ds stop)
    (hoffers : start.1.Offers (l.configDir / "schemas") place) :
    stop.1.Offers (l.configDir / "schemas") place
      ∧ (ds ≠ [] → stop.1.locate (l.configDir / "schemas") = .ok (.directory place))
      ∧ (∀ artifact, ∀ e ∈ endings, FileTree.entry? stop.1 (place ++ [keptBase artifact ++ e])
        = ((lastFor artifact ds).map fun d => Entry.file (d.schema.fileText c.now e)).or
          (FileTree.entry? start.1 (place ++ [keptBase artifact ++ e])))
      ∧ ∀ q, (∀ name ∈ schemaNames (ds.map Deduction.artifact), q ≠ place ++ [name]) →
        (ds ≠ [] → q ≠ place) → FileTree.entry? stop.1 q = FileTree.entry? start.1 q := by
  induction h with
  | nil start => exact ⟨hoffers, absurd rfl, fun _ _ _ => rfl, fun _ _ _ => rfl⟩
  | @cons start middle stop d rest first others ih =>
      obtain ⟨hdir, hfiles, hframe⟩ := first.stores hoffers
      obtain ⟨hoffers', hdir', hlast, hrest⟩ := ih (Or.inl hdir)
      refine ⟨hoffers', fun _ => ?_, ?_, ?_⟩
      · rcases hoffers' with hthere | hmissing
        · exact hthere
        · cases rest with
          | nil =>
              cases others
              exact hdir
          | cons d' rest => exact hdir' (List.cons_ne_nil d' rest)
      · intro artifact e he
        rw [hlast artifact e he, lastFor_cons, Option.map_or, Option.or_assoc]
        congr 1
        by_cases hbase : keptBase d.artifact.fileName = keptBase artifact
        · rw [if_pos hbase, ← hbase]
          exact hfiles e he
        · rw [if_neg hbase]
          refine hframe _ (by simp) fun e' he' heq => hbase ?_
          exact (ending_unique he he' (List.singleton_inj.mp (List.append_cancel_left heq))).2.symm
      · intro q hnames hplace
        have hq : q ≠ place := hplace (List.cons_ne_nil d rest)
        rw [hrest q (fun name hname => hnames name (List.mem_append_right _ hname)) fun _ => hq]
        refine hframe q hq fun e he => hnames _ (List.mem_append_left _ ?_)
        exact List.mem_map.mpr ⟨e, he, rfl⟩

theorem DeducesInTurn.holdsLast {ds : List Deduction} (h : DeducesInTurn c l t start ds stop)
    (hoffers : ∀ d ∈ ds, start.1.Offers (l.configDir / "schemas") place) :
    HoldsLast c.now l (ds.map Deduction.artifact) ds start.1 stop.1 place := by
  cases ds with
  | nil =>
      cases h
      exact ⟨absurd rfl, List.forall_mem_nil _, fun _ _ _ => rfl⟩
  | cons d rest =>
      obtain ⟨-, hdir, hlast, hframe⟩ := h.stores (hoffers d List.mem_cons_self)
      have hsome := List.cons_ne_nil d rest
      refine ⟨fun _ => hdir hsome, ?_, fun q hnames hplace =>
        hframe q hnames fun _ => hplace (List.cons_ne_nil _ _)⟩
      intro a ha
      obtain ⟨d', hd', rfl⟩ := List.mem_map.mp ha
      obtain ⟨last, hd⟩ := exists_lastFor hd' rfl
      refine ⟨last, hd, fun e he => ?_⟩
      rw [hlast _ e he, hd]
      rfl

end

/-! ## Side by side -/

section

variable {σ : Type} {c : Conditions σ} {l : PipelineLocation} {start stop : FileTree × σ}
  {acts : List Act} {artifacts : List ArtifactWrite} {place : List Text}

/-- Schemas can only be stored where their directory is there or can be made. -/
theorem Performs.offers_schemas (h : Performs c start acts stop) (hwhole : AreWhole acts)
    (hthere : l.IsThere start.1)
    (hops : ∀ op ∈ opsOf acts, ∃ a ∈ artifacts, OfSchema l a.fileName op) (hsome : opsOf acts ≠ []) :
    ∃ place, start.1.Offers (l.configDir / "schemas") place := by
  induction h with
  | nil => exact absurd rfl hsome
  | told _ _ ih | asked _ _ ih =>
      exact ih (List.forall_mem_cons.mp hwhole).2 hthere hops hsome
  | @filed files state acts stop op' result ending _ _ =>
      obtain ⟨hact, -⟩ := List.forall_mem_cons.mp hwhole
      obtain ⟨⟨a, -, hfirst⟩, -⟩ := List.forall_mem_cons.mp hops
      cases result with
      | error e => cases hact
      | ok _ =>
          obtain ⟨d, hoffers⟩ := hfirst.offers hthere (Prod.ext ending rfl)
          exact ⟨_, hoffers⟩

/-- Operations for the schemas of artifacts change the files of these, and their directory. -/
theorem Performs.frame_schemas (h : Performs c start acts stop) (hwhole : AreWhole acts)
    (hops : ∀ op ∈ opsOf acts, ∃ a ∈ artifacts, OfSchema l a.fileName op)
    (hoffers : start.1.Offers (l.configDir / "schemas") place) :
    stop.1.Offers (l.configDir / "schemas") place
      ∧ ∀ q, (∀ name ∈ schemaNames artifacts, q ≠ place ++ [name]) → q ≠ place →
        FileTree.entry? stop.1 q = FileTree.entry? start.1 q := by
  induction h with
  | nil => exact ⟨hoffers, fun _ _ _ => rfl⟩
  | told _ _ ih | asked _ _ ih => exact ih (List.forall_mem_cons.mp hwhole).2 hops hoffers
  | @filed files state acts stop op result ending _ ih =>
      obtain ⟨hact, hothers⟩ := List.forall_mem_cons.mp hwhole
      obtain ⟨⟨a, ha, hop⟩, hrest⟩ := List.forall_mem_cons.mp hops
      cases result with
      | error e => cases hact
      | ok _ =>
          obtain ⟨hoffers', hframe⟩ := hop.frame hoffers (Prod.ext ending rfl)
          obtain ⟨hoffers'', hframe'⟩ := ih hothers hrest hoffers'
          refine ⟨hoffers'', fun q hnames hq => ?_⟩
          rw [hframe' q hnames hq]
          refine hframe q hq fun e he => hnames _ (mem_schemaNames.mpr ⟨a, ha, e, he, rfl⟩)

theorem Performs.still (h : Performs c start acts stop) (hnone : opsOf acts = []) :
    stop.1 = start.1 := by
  induction h with
  | nil => rfl
  | told _ _ ih | asked _ _ ih => exact ih hnone
  | filed _ _ _ => cases hnone

namespace DoneTask

variable {x : DoneTask} {total : Nat}

theorem IsDone.areWhole_history (h : x.IsDone c l total) : AreWhole (x.history.map Prod.snd) :=
  (List.forall_mem_append.mp (h.areWhole : AreWhole (x.acts c l []))).2

theorem IsDone.ofSchema (h : x.IsDone c l total) :
    ∀ op ∈ TaskContract.opsOf (x.history.map Prod.snd), ∃ a ∈ x.answers.artifacts c,
      OfSchema l a.fileName op := by
  intro op hop
  obtain ⟨_, a, _, _, ha, hwork, hmem, -⟩ := h.of_mem_opsOf hop
  exact ⟨a, List.mem_of_getElem? ha, ofSchema_of_mem hwork op hmem⟩

theorem Makes.subset_history {d : Deduction} {reply : Chat.Reply} {ops : List FileOperation}
    (h : x.Makes c l total d reply ops) : ops ⊆ TaskContract.opsOf (x.history.map Prod.snd) := by
  rw [← h.opsOf]
  exact List.filterMap_subset _ fun _ => mem_of_mem_actsOf

theorem IsDone.hasFiles (h : x.IsDone c l total)
    (hperforms : Performs c start (x.history.map Prod.snd) stop) {d : Deduction}
    (hd : d ∈ x.deductions c) :
    (∃ place, HasFiles l d.artifact.fileName stop.1 place) ∧ d.CanBeStored c.now
      ∧ TaskContract.opsOf (x.history.map Prod.snd) ≠ [] := by
  obtain ⟨reply, ops, hmakes⟩ := h.makes_of_mem hd
  have hleaves := hperforms.leaves h.areWhole_history
  obtain ⟨place, hfiles, hvalues, -⟩ :=
    schema_puts hmakes.stores fun op hop => hleaves.repeats op (hmakes.subset_history hop)
  obtain ⟨hsound, rfl⟩ := schemaWork_ok hmakes.stores
  exact ⟨⟨place, hfiles⟩, ⟨hsound, hvalues, hfiles.canBeNamed⟩,
    List.ne_nil_of_mem (hmakes.subset_history List.mem_cons_self)⟩

theorem IsDone.holdsLast (h : x.IsDone c l total)
    (hperforms : Performs c start (x.history.map Prod.snd) stop) (hthere : l.IsThere start.1)
    (hspells : ∀ a ∈ x.answers.artifacts c, x.SpellsAlike c a.fileName) :
    ∃ place, HoldsLast c.now l (x.answers.artifacts c) (x.deductions c) start.1 stop.1 place := by
  rcases List.eq_nil_or_concat' (x.answers.artifacts c) with hnone | ⟨_, a, hsome⟩
  · have hstill := hperforms.still (List.eq_nil_iff_forall_not_mem.mpr fun op hop => by
      obtain ⟨a, ha, -⟩ := h.ofSchema op hop
      rw [hnone] at ha
      cases ha)
    rw [hnone, hstill]
    exact ⟨[], absurd rfl, List.forall_mem_nil _, fun _ _ _ => rfl⟩
  · have ha : a ∈ x.answers.artifacts c := by
      rw [hsome]
      exact List.mem_append_right _ (List.mem_singleton_self a)
    obtain ⟨d, hd, -⟩ := h.exists_deduction ha
    obtain ⟨⟨place', hfiles⟩, -, hops⟩ := h.hasFiles hperforms hd
    obtain ⟨place, hoffers⟩ :=
      hperforms.offers_schemas h.areWhole_history hthere h.ofSchema hops
    obtain ⟨hoffers', hframe⟩ := hperforms.frame_schemas h.areWhole_history h.ofSchema hoffers
    have hroom : stop.1.locate (l.configDir / "schemas") = .ok (.directory place) := by
      rcases hoffers' with hdir | hmissing
      · exact hdir
      · rw [hfiles.room] at hmissing
        cases Except.ok.inj hmissing
    have hleaves := hperforms.leaves h.areWhole_history
    refine ⟨place, fun _ => hroom, ?_, fun q hnames hq =>
      hframe q hnames (hq (List.ne_nil_of_mem ha))⟩
    intro b hb
    obtain ⟨d, hd, rfl⟩ := h.exists_deduction hb
    obtain ⟨d', hlast⟩ := exists_lastFor hd rfl
    refine ⟨d', hlast, fun e he => hleaves.entry_of_lastText ?_⟩
    have hput := h.lastPut_history hleaves.repeats hroom (hspells _ hb) he
    rw [hlast] at hput
    exact hput

def inOrder (c : Conditions σ) (x : DoneTask) : List Deduction :=
  (List.range (x.answers.artifacts c).length).filterMap (x.deduction? c)

theorem IsDone.inOrder_spec (h : x.IsDone c l total) :
    (x.inOrder c).map Deduction.artifact = x.answers.artifacts c
      ∧ List.Forall₂ (fun reply d => Chat.Reply.schema reply d.artifact.fileName = .ok d.schema)
        x.answers.schemas (x.inOrder c) := by
  obtain ⟨vs, hgathered⟩ := h.gathered
  have hlength : x.answers.schemas.length = (x.answers.artifacts c).length := by
    rw [(hgathered.done vs rfl).length, x.answers.length_jobs]
  have hall : ∀ n ≤ (x.answers.artifacts c).length,
      ((List.range n).filterMap (x.deduction? c)).map Deduction.artifact
          = (x.answers.artifacts c).take n
        ∧ List.Forall₂ (fun reply d => Chat.Reply.schema reply d.artifact.fileName = .ok d.schema)
          (x.answers.schemas.take n) ((List.range n).filterMap (x.deduction? c)) := by
    intro n hn
    induction n with
    | zero => exact ⟨rfl, .nil⟩
    | succ n ih =>
        obtain ⟨hartifacts, hschemas⟩ := ih (Nat.le_of_succ_le hn)
        have ha := List.getElem?_eq_getElem hn
        obtain ⟨d, reply, ops, hd, rfl, hartifact, hmakes⟩ := h.makes ha
        rw [List.range_succ, List.filterMap_append, List.map_append, hartifacts,
          List.take_add_one, List.take_add_one, ha, hmakes.replied, List.filterMap_cons_some hd,
          ← hartifact]
        exact ⟨rfl, List.rel_append hschemas (.cons hmakes.schema .nil)⟩
  have hwhole := hall _ (Nat.le_refl _)
  rwa [List.take_length, List.take_of_length_le (Nat.le_of_eq hlength)] at hwhole

theorem IsDone.mem_deductions (h : x.IsDone c l total) {d : Deduction} (hd : d ∈ x.inOrder c) :
    d ∈ x.deductions c := by
  obtain ⟨i, -, hi⟩ := List.mem_filterMap.mp hd
  obtain ⟨rfl, reply, ops, hmakes⟩ := h.of_deduction hi
  exact List.mem_filterMap.mpr ⟨_, hmakes.mem_history, hi⟩

/-- Where no other artifact has the base name, its only deduction is the last one in every order. -/
theorem IsDone.lastFor_of_alone (h : x.IsDone c l total) {i : Nat} {a : ArtifactWrite}
    (ha : (x.answers.artifacts c)[i]? = some a)
    (halone : ∀ j b, (x.answers.artifacts c)[j]? = some b →
      keptBase b.fileName = keptBase a.fileName → j = i) :
    lastFor a.fileName (x.deductions c) = lastFor a.fileName (x.inOrder c) := by
  obtain ⟨d, reply, ops, hd, rfl, rfl, hmakes⟩ := h.makes ha
  have honly : ∀ {j e}, x.deduction? c j = some e →
      keptBase e.artifact.fileName = keptBase d.artifact.fileName → e = d := by
    intro j e he hbase
    obtain ⟨rfl, _, _, hother⟩ := h.of_deduction he
    rw [halone _ _ hother.artifact hbase] at he
    exact Option.some.inj (he.symm.trans hd)
  have hlast : ∀ ds : List Deduction, d ∈ ds → (∀ e ∈ ds, ∃ j, x.deduction? c j = some e) →
      lastFor d.artifact.fileName ds = some d := by
    intro ds hmem hall
    obtain ⟨e, he⟩ := exists_lastFor hmem rfl
    obtain ⟨hmem', hbase⟩ := isFor_of_lastFor he
    obtain ⟨j, hj⟩ := hall e hmem'
    rw [he, honly hj hbase]
  have hin : d ∈ x.inOrder c := List.mem_filterMap.mpr
    ⟨d.index, List.mem_range.mpr (List.getElem?_eq_some_iff.mp hmakes.artifact).1, hd⟩
  rw [hlast _ (h.mem_deductions hin), hlast _ hin]
  · intro e he
    obtain ⟨j, -, hj⟩ := List.mem_filterMap.mp he
    exact ⟨j, hj⟩
  · intro e he
    obtain ⟨y, -, hy⟩ := List.mem_filterMap.mp he
    obtain ⟨_, -, hy⟩ := Option.bind_eq_some_iff.mp hy
    exact ⟨y.1, hy⟩

end DoneTask

end

/-- **What a run has deduced for a task can be deduced elsewhere.** Where the same exchanges come
next and there is room, the deductions one after another put the same files in the directory for
schemas, if the last one for each base name is the one that was complete last. -/
theorem DoneTask.IsDone.alike {c : Conditions Chat.Wire} {chat : Chat.Settings}
    (hclient : c.client = Chat.Client.overWire chat) {l : PipelineLocation} {total : Nat}
    {x : DoneTask} (h : x.IsDone c l total) {start stop : FileTree × Chat.Wire}
    (hperforms : Performs c start (x.history.map Prod.snd) stop) (hthere : l.IsThere start.1)
    (hspells : ∀ a ∈ x.answers.artifacts c, x.SpellsAlike c a.fileName)
    (hlast : ∀ a ∈ x.answers.artifacts c,
      lastFor a.fileName (x.deductions c) = lastFor a.fileName (x.inOrder c)) :
    ∃ n, start.2.Advances stop.2 n ∧ ∀ (l' : PipelineLocation) (u : FileTree) (v : Chat.Wire)
      (place : List Text), (∀ a ∈ x.answers.artifacts c, SchemaRoom u l'.configDir place) →
      CanBeNamed l'.configDir.text →
      (∀ a ∈ x.answers.artifacts c, FitsBelow l'.configDir a) →
      v.upcoming n = start.2.upcoming n → ∃ after place₀ files,
        DeducesInTurn c l' x.task (u, v) (x.inOrder c) after
          ∧ files.map Prod.fst = schemaNames (x.answers.artifacts c)
          ∧ start.1.PutsIn stop.1 (l.configDir / "schemas") place₀ files
          ∧ u.PutsIn after.1 (l'.configDir / "schemas") place files := by
  obtain ⟨vs, hgathered⟩ := h.gathered
  obtain ⟨hreplies, hstate⟩ :=
    TaskAnswers.schemas_of_performs (hgathered.done vs rfl) hperforms
  obtain ⟨n, hadvances, hagain⟩ := Chat.goesByExchanges_replies chat
    ((x.answers.artifacts c).map (deductionRequest c.model x.answers.work.code)) start.2
  dsimp only at hadvances hagain
  rw [← hclient, ← hstate] at hadvances
  refine ⟨n, hadvances, ?_⟩
  intro l' u v place hroom houtput hfits hv
  obtain ⟨hartifacts, hschemas⟩ := h.inOrder_spec
  have hsame := (hagain v hv).1
  rw [← hclient, ← hreplies, ← hartifacts, List.map_map] at hsame
  have hmem : ∀ d ∈ x.inOrder c, d.artifact ∈ x.answers.artifacts c := fun d hd =>
    hartifacts ▸ List.mem_map_of_mem hd
  -- the deductions are made again below the other directory
  obtain ⟨after, hturn⟩ := exists_deducesInTurn (c := c) (l := l') (t := x.task) (u := u) (v := v)
    (fun d hd => (h.hasFiles hperforms (h.mem_deductions hd)).2.1) (hsame ▸ hschemas)
    (fun d hd => hroom _ (hmem d hd)) houtput fun d hd => hfits _ (hmem d hd)
  obtain ⟨place₀, hholds⟩ := h.holdsLast hperforms hthere hspells
  have hholds' := hturn.holdsLast fun d hd => (hroom _ (hmem d hd)).offers
  rw [hartifacts] at hholds'
  obtain ⟨files, hnames, hputs, hputs'⟩ := hholds.putAlike hholds' hlast
  exact ⟨after, place₀, files, hturn, hnames, hputs, hputs'⟩

end TaskContract
