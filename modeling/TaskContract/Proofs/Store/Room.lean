import TaskContract.Proofs.Store.SchemaFiles

/-!
# Schemas that can be stored

Where there is room for schemas, a schema is stored if its values can be written and its files have
names and paths that can be looked up; and there is room for the next one afterwards.
-/

namespace TaskContract

variable {t : FileTree}

section

variable {dir : Path} {inner : Text} {place : List Text}

/-- A file that is put somewhere takes no room away. -/
theorem FileTree.free_insert (hfree : ∀ name, t.entry? (place ++ [name]) ≠ some .directory)
    (kept text : Text) : ∀ name,
    FileTree.entry? (t.insert (place ++ [kept]) (.file text)) (place ++ [name])
      ≠ some .directory := by
  intro name
  by_cases hname : place ++ [name] = place ++ [kept]
  · rw [hname, entry_insert_self t (by simp)]
    exact fun heq => nomatch Option.some.inj heq
  · rw [entry_insert_of_ne t hname]
    exact hfree name

theorem writeAll_succeeds (hinner : Path.IsName inner)
    (hdir : t.locate (dir.child inner) = .ok (.directory place)) {values : List (Text × Json)}
    (hnames : ∀ x ∈ values, Path.IsName x.1 ∧ (FileName.bytes x.1).length ≤ FileTree.nameLimit)
    (htexts : ∀ x ∈ values, FileTree.textFault? ((dir.child inner).child x.1).text = none)
    (hvalues : ∀ x ∈ values, x.2.integersFit = true ∧ x.2.isScalar = true)
    (hfree : ∀ name, t.entry? (place ++ [name]) ≠ some .directory) :
    ∃ t', t.performAll {} (writes (dir.child inner) (values.map fun x => (x.1, x.2.filePortions)))
      = (.ok (), t') := by
  induction values generalizing t with
  | nil => exact ⟨t, rfl⟩
  | cons x rest ih =>
      obtain ⟨⟨hname, hlength⟩, hnames⟩ := List.forall_mem_cons.mp hnames
      obtain ⟨htext, htexts⟩ := List.forall_mem_cons.mp htexts
      obtain ⟨⟨hfits, hscalar⟩, hvalues⟩ := List.forall_mem_cons.mp hvalues
      have hlocate := FileTree.locate_name hinner.ne_nil hdir hname hlength htext
      have hwrite := FileTree.write_of_writable
        (FileTree.takes_of_free hlocate (hfree (FileName.kept x.1)))
        (Json.filePieces_encodable_iff.mpr hscalar)
      rw [← Json.filePortions_of_fits hfits] at hwrite
      have hkeeps := FileTree.keeps_insert (hfree (FileName.kept x.1)) (.file x.2.filePieces.flatten)
      obtain ⟨t', hrest⟩ := ih (hkeeps.locate_directory hdir) hnames htexts hvalues
        (FileTree.free_insert hfree _ _)
      refine ⟨t', ?_⟩
      have hfirst : t.perform {} (.write ((dir.child inner).child x.1) x.2.filePortions)
          = t.write ((dir.child inner).child x.1) x.2.filePortions := rfl
      rw [List.map_cons, writes, List.map_cons, FileTree.performAll, hfirst, hwrite]
      exact hrest

end

/-- There is room for schemas below a directory: the directory for them is there or can be made, and
nothing in it is a directory. -/
structure SchemaRoom (t : FileTree) (output : Path) (place : List Text) : Prop where
  offers : t.Offers (output / "schemas") place
  free : ∀ name, t.entry? (place ++ [name]) ≠ some .directory

variable {output : Path} {place : List Text}

/-- A call is answered where there is room, and leaves room for the next one. -/
theorem SchemaRoom.write (h : SchemaRoom t output place) (c : SchemaCall)
    (hfault : SchemaFiles.fault? c.data = none)
    (hlengths : ∀ x ∈ c.files, (FileName.bytes x.1).length ≤ FileTree.nameLimit)
    (htexts : ∀ x ∈ c.files,
      FileTree.textFault? ((output / "schemas").child x.1).text = none)
    (hvalues : ∀ x ∈ c.files, x.2.integersFit = true ∧ x.2.isScalar = true) :
    ∃ t', SchemaFiles.write t c.now output c.artifact c.data
        = (.ok (SchemaPaths.ofArtifact output c.artifact), t')
      ∧ SchemaRoom t' output place := by
  obtain ⟨made, hmake, -, hdir, hmade⟩ := h.offers.makeDirectories
  have hfree : ∀ name, made.entry? (place ++ [name]) ≠ some .directory := by
    intro name
    rw [hmade _ (by simp)]
    exact h.free name
  have hstored : ∃ t', made.performAll {} (writes (output / "schemas") c.portions)
      = (.ok (), t') := by
    rw [schemas_eq_child] at hdir htexts ⊢
    exact writeAll_succeeds isName_schemas hdir
      (fun x hx => ⟨c.isName_of_mem_files x hx, hlengths x hx⟩) htexts hvalues hfree
  obtain ⟨t', ht'⟩ := hstored
  have hwrite : SchemaFiles.write t c.now output c.artifact c.data
      = (.ok (SchemaPaths.ofArtifact output c.artifact), t') := by
    rw [write_eq t output c {} hfault, hmake]
    dsimp only
    rw [ht']
  refine ⟨t', hwrite, ?_, ?_⟩
  · obtain ⟨_, hdir', _, _⟩ := write_spec h.offers c (by rw [hwrite]; rfl) (by rw [hwrite])
    exact Or.inl hdir'
  · obtain ⟨_, _, hfiles, hframe⟩ := write_spec h.offers c (by rw [hwrite]; rfl) (by rw [hwrite])
    intro name
    by_cases hname : ∃ x ∈ c.files, place ++ [name] = place ++ [FileName.kept x.1]
    · obtain ⟨x, hx, heq⟩ := hname
      rw [heq, FileTree.entry_of_file (hfiles x hx).2]
      exact fun heq => nomatch Option.some.inj heq
    · rw [hframe _ (by simp) fun x hx heq => hname ⟨x, hx, heq⟩]
      exact h.free name

end TaskContract
