import TaskContract.CommandLine.Parameter
import TaskContract.Proofs.Files.Lookup

/-!
# How a path is written

A text is written with slashes and dots that its path does not keep. A walk along the text as it is
written comes to where its path leads, unless the text is too long or asks for a directory where
there is a file; so a text is accepted for a file or a directory that its path leads to.
-/

namespace TaskContract

namespace Text

theorem mem_splitOn {c d : CodePoint} {t : Text} (h : d ∈ t) :
    d = c ∨ ∃ piece ∈ splitOn c t, d ∈ piece := by
  induction t with
  | nil => cases h
  | cons first rest ih =>
      rw [splitOn]
      by_cases hfirst : first = c
      · rw [if_pos hfirst]
        rcases List.mem_cons.mp h with rfl | h
        · exact Or.inl hfirst
        · rcases ih h with hd | ⟨piece, hpiece, hd⟩
          · exact Or.inl hd
          · exact Or.inr ⟨piece, List.mem_cons_of_mem _ hpiece, hd⟩
      · rw [if_neg hfirst]
        cases hrest : splitOn c rest with
        | nil =>
            rcases List.mem_cons.mp h with rfl | h
            · exact Or.inr ⟨[d], List.mem_cons_self, List.mem_cons_self⟩
            · rw [hrest] at ih
              rcases ih h with hd | ⟨piece, hpiece, _⟩
              · exact Or.inl hd
              · cases hpiece
        | cons piece pieces =>
            rcases List.mem_cons.mp h with rfl | h
            · exact Or.inr ⟨d :: piece, List.mem_cons_self, List.mem_cons_self⟩
            · rw [hrest] at ih
              rcases ih h with hd | ⟨other, hother, hd⟩
              · exact Or.inl hd
              · rcases List.mem_cons.mp hother with rfl | hother
                · exact Or.inr ⟨first :: other, List.mem_cons_self, List.mem_cons_of_mem _ hd⟩
                · exact Or.inr ⟨other, List.mem_cons_of_mem _ hother, hd⟩

theorem mem_of_mem_splitOn {c d : CodePoint} {t piece : Text} (hpiece : piece ∈ splitOn c t)
    (h : d ∈ piece) : d ∈ t := by
  induction t generalizing piece with
  | nil =>
      obtain rfl := List.mem_singleton.mp hpiece
      cases h
  | cons first rest ih =>
      rw [splitOn] at hpiece
      split at hpiece
      · rcases List.mem_cons.mp hpiece with rfl | hpiece
        · cases h
        · exact List.mem_cons_of_mem _ (ih hpiece h)
      · split at hpiece
        · obtain rfl := List.mem_singleton.mp hpiece
          rw [List.mem_singleton.mp h]
          exact List.mem_cons_self
        · rename_i hrest
          rcases List.mem_cons.mp hpiece with rfl | hpiece
          · rcases List.mem_cons.mp h with rfl | h
            · exact List.mem_cons_self
            · exact List.mem_cons_of_mem _ (ih (hrest ▸ List.mem_cons_self) h)
          · exact List.mem_cons_of_mem _ (ih (hrest ▸ List.mem_cons_of_mem _ hpiece) h)

theorem mem_join {separator : Text} {ts : List Text} {t : Text} {c : CodePoint} (ht : t ∈ ts)
    (hc : c ∈ t) : c ∈ join separator ts := by
  induction ts with
  | nil => cases ht
  | cons first rest ih =>
      cases rest with
      | nil =>
          obtain rfl := List.mem_singleton.mp ht
          exact hc
      | cons second others =>
          rw [join, List.mem_append, List.mem_append]
          rcases List.mem_cons.mp ht with rfl | ht
          · exact Or.inl (Or.inl hc)
          · exact Or.inr (ih ht)
          · simp

end Text

namespace Path

/-- What a text is written with stands in the text of its path too, but for slashes and dots. -/
theorem mem_text_ofText {written : Text} {c : CodePoint} (h : c ∈ written) :
    c = CodePoint.ofChar '/' ∨ c = CodePoint.ofChar '.' ∨ c ∈ (ofText written).text := by
  rcases Text.mem_splitOn (c := CodePoint.ofChar '/') h with hslash | ⟨piece, hpiece, hc⟩
  · exact Or.inl hslash
  · right
    by_cases hcounts : counts piece = true
    · right
      have hname : piece ∈ (ofText written).parts := List.mem_filter.mpr ⟨hpiece, hcounts⟩
      rw [text_of_parts (List.ne_nil_of_mem hname)]
      exact List.mem_append_right _ (Text.mem_join hname hc)
    · left
      have hpiece : piece = [] ∨ piece = Text.ofString "." := by
        simpa [counts, or_iff_not_imp_left] using hcounts
      rcases hpiece with rfl | rfl
      · cases hc
      · exact List.mem_singleton.mp hc

theorem startsWith_ofText {written : Text} (h : written ≠ []) :
    (ofText written).text.startsWith (Text.ofString "/")
      = written.startsWith (Text.ofString "/") := by
  obtain ⟨c, rest, rfl⟩ := List.exists_cons_of_ne_nil h
  rw [Text.startsWith_slash, Text.startsWith_slash, List.head?_cons]
  by_cases hc : c = CodePoint.ofChar '/'
  · subst hc
    obtain ⟨more, hmore⟩ := rootOf_slash rest
    have htext : (ofText (CodePoint.ofChar '/' :: rest)).text
        = CodePoint.ofChar '/' :: (more ++ Text.join (Text.ofString "/")
          (namesOf (CodePoint.ofChar '/' :: rest))) := by
      rw [text, ofText, hmore]
      rfl
    rw [htext, List.head?_cons]
  · have hroot := rootOf_of_ne hc rest
    have hne : (some c == some (CodePoint.ofChar '/')) = false := by simpa using hc
    rw [hne]
    cases hnames : namesOf (c :: rest) with
    | nil =>
        -- a path without names is written as a dot
        have htext : (ofText (c :: rest)).text = Text.ofString "." := by
          rw [text, ofText, hroot, hnames]
          rfl
        rw [htext]
        decide
    | cons name names =>
        obtain ⟨hname, hslash⟩ := of_mem_namesOf (hnames ▸ List.mem_cons_self)
        have hparts : (ofText (c :: rest)).parts ≠ [] := by
          rw [ofText, hnames]
          exact List.cons_ne_nil _ _
        rw [text_of_parts hparts, ofText, hroot, hnames]
        exact Text.head_join [] hname hslash names

end Path

namespace FileTree

variable {t : FileTree}

/-! ## Walks along what is written -/

theorem step_of_not_counts (t : FileTree) (place : List Text) {name : Text}
    (h : ¬Path.counts name = true) : t.step place name = .ok (.directory place) := by
  have hspecial : (name.isEmpty || decide (name = Text.ofString ".")) = true := by
    cases hempty : name.isEmpty with
    | true => rfl
    | false => simpa [Path.counts, hempty] using h
  rw [step, if_pos hspecial]

/-- The pieces of a text that do not count change nothing of a walk to a directory. -/
theorem walk_pieces_directory {start d : List Text} {pieces : List Text}
    (h : t.walk (.directory start) (pieces.filter Path.counts) = .ok (.directory d)) :
    t.walk (.directory start) pieces = .ok (.directory d) := by
  induction pieces generalizing start with
  | nil => exact h
  | cons piece rest ih =>
      rw [walk]
      by_cases hcounts : Path.counts piece = true
      · rw [List.filter_cons_of_pos hcounts, walk] at h
        cases hstep : t.step start piece with
        | error e =>
            rw [hstep] at h
            cases h
        | ok x =>
            rw [hstep] at h
            cases x with
            | directory d' => exact ih h
            | file q text => cases (walk_of_not_directory (by simp) h).2
            | missing q => cases (walk_of_not_directory (by simp) h).2
      · rw [List.filter_cons_of_neg hcounts] at h
        rw [step_of_not_counts t start hcounts]
        exact ih h

/-- On the way to a file they may only ask for a directory in its place. -/
theorem walk_pieces_file {start q : List Text} {text : Text} {pieces : List Text}
    (h : t.walk (.directory start) (pieces.filter Path.counts) = .ok (.file q text)) :
    t.walk (.directory start) pieces = .ok (.file q text)
      ∨ t.walk (.directory start) pieces = .error .notADirectory := by
  induction pieces generalizing start with
  | nil => exact Or.inl h
  | cons piece rest ih =>
      rw [walk]
      by_cases hcounts : Path.counts piece = true
      · rw [List.filter_cons_of_pos hcounts, walk] at h
        cases hstep : t.step start piece with
        | error e =>
            rw [hstep] at h
            cases h
        | ok x =>
            rw [hstep] at h
            cases x with
            | directory d => exact ih h
            | file q' text' =>
                obtain ⟨-, hfile⟩ := walk_of_not_directory (by simp) h
                rw [hfile]
                cases rest with
                | nil => exact Or.inl rfl
                | cons name names => exact Or.inr rfl
            | missing q' => cases (walk_of_not_directory (by simp) h).2
      · rw [List.filter_cons_of_neg hcounts] at h
        rw [step_of_not_counts t start hcounts]
        exact ih h

/-- A text whose path can be looked up is at most too long. -/
theorem textFault_written {written : Text} (h : textFault? (Path.ofText written).text = none) :
    textFault? written = none ∨ textFault? written = some .nameTooLong := by
  obtain ⟨hcovers, hnul, -⟩ := textFault_eq_none_iff.mp h
  have hmarks : ∀ c ∈ [CodePoint.ofChar '/', CodePoint.ofChar '.'],
      Encoding.fileName.covers c = true ∧ CodePoint.ofNat 0 ≠ c := by decide
  have hall : ∀ c ∈ written, Encoding.fileName.covers c = true ∧ CodePoint.ofNat 0 ≠ c := by
    intro c hc
    rcases Path.mem_text_ofText hc with rfl | rfl | hc
    · exact hmarks _ List.mem_cons_self
    · exact hmarks _ (List.mem_cons_of_mem _ List.mem_cons_self)
    · refine ⟨hcovers c hc, ?_⟩
      rintro rfl
      exact hnul hc
  have hfault : Encoding.fileName.fault? written = none :=
    Encoding.fault_eq_none_iff.mpr fun c hc => (hall c hc).1
  have hcontains : ¬written.contains (CodePoint.ofNat 0) = true := by
    rw [List.contains_iff_mem]
    exact fun hmem => (hall _ hmem).2 rfl
  rw [textFault?, hfault]
  dsimp only
  rw [if_neg hcontains]
  by_cases hlong : pathLimit ≤ (FileName.bytes written).length
  · rw [if_pos hlong]
    exact Or.inr rfl
  · rw [if_neg hlong]
    exact Or.inl rfl

/-! ## Names in a directory -/

/-- A name in a directory is looked up from where the directory is. -/
theorem startOf_child_ofText (t : FileTree) (written : Text) {name : Text}
    (hname : Path.IsName name) :
    t.startOf ((Path.ofText written).child name) = t.startOf (Path.ofText written) := by
  show t.startOf ⟨Path.rootOf written, Path.namesOf written ++ [name]⟩
    = t.startOf ⟨Path.rootOf written, Path.namesOf written⟩
  cases hnames : Path.namesOf written with
  | nil =>
      rw [startOf, startOf, Text.startsWith_slash, Text.startsWith_slash]
      cases Path.rootOf written with
      | nil =>
          have hhead : ((Text.join (Text.ofString "/") [name]).head?
              == some (CodePoint.ofChar '/')) = false :=
            Text.head_join [] hname.ne_nil hname.noSlash []
          rw [Path.text_of_parts (by simp)]
          show (if _ then _ else _) = t.current
          exact if_neg (by rw [List.nil_append, List.nil_append, hhead]; exact Bool.false_ne_true)
      | cons c rest => rfl
  | cons piece pieces =>
      have hpiece := Path.of_mem_namesOf (hnames ▸ List.mem_cons_self)
      exact startOf_eq t _ [] hpiece hpiece (pieces ++ [name]) pieces

theorem locate_child_ofText {written name : Text} {d : List Text} (hname : Path.IsName name)
    (hlength : (FileName.bytes name).length ≤ nameLimit)
    (hdir : t.locate (Path.ofText written) = .ok (.directory d))
    (htext : textFault? ((Path.ofText written).child name).text = none) :
    t.locate ((Path.ofText written).child name) = .ok (t.found (d ++ [FileName.kept name])) := by
  rw [locate_of_walk htext, startOf_child_ofText t written hname]
  show t.walk _ ((Path.ofText written).parts ++ [name]) = _
  rw [walk_append, walk_of_locate hdir]
  show t.walk (.directory d) [name] = _
  rw [walk_singleton, step_of_isName hname hlength]

end FileTree

/-! ## Values of parameters -/

namespace CommandLine.ValueKind

variable {t : FileTree} {written : Text}

/-- What the text leads to as it is written is what its path leads to, or there is a fault that the
system reports. -/
theorem locateWritten_cases {x : FileTree.Found} (h : t.locate (Path.ofText written) = .ok x)
    (hx : ∀ q, x ≠ .missing q) :
    t.locateWritten written = .ok x
      ∨ ∃ e : FileFault, e.system?.isSome = true ∧ t.locateWritten written = .error e := by
  obtain ⟨htext, hwalk⟩ := FileTree.locate_eq_ok h
  unfold FileTree.locateWritten
  by_cases hempty : written = []
  · subst hempty
    exact Or.inr ⟨.notFound, rfl, rfl⟩
  · rw [if_neg (by simpa using hempty), FileTree.locateAlong]
    rcases FileTree.textFault_written htext with hnone | hlong
    · rw [hnone, ← Path.startsWith_ofText hempty]
      dsimp only
      cases x with
      | directory d => exact Or.inl (FileTree.walk_pieces_directory hwalk)
      | file q text =>
          rcases FileTree.walk_pieces_file hwalk with hfile | hnot
          · exact Or.inl hfile
          · exact Or.inr ⟨.notADirectory, rfl, hnot⟩
      | missing q => exact absurd rfl (hx q)
    · rw [hlong]
      exact Or.inr ⟨.nameTooLong, rfl, rfl⟩

theorem value_of_file {q : List Text} {text : Text}
    (h : t.locate (Path.ofText written) = .ok (.file q text)) :
    ValueKind.file.value t written = .ok (.path (Path.ofText written)) := by
  unfold value path
  dsimp only
  rcases locateWritten_cases h (by simp) with hfile | ⟨e, he, herror⟩
  · rw [hfile]
    rfl
  · rw [herror]
    exact if_pos he

theorem value_of_directory {d : List Text}
    (h : t.locate (Path.ofText written) = .ok (.directory d)) :
    (ValueKind.directory false).value t written = .ok (.path (Path.ofText written)) := by
  unfold value path
  dsimp only
  rcases locateWritten_cases h (by simp) with hdir | ⟨e, he, herror⟩
  · rw [hdir]
    rfl
  · rw [herror]
    exact if_pos he

end CommandLine.ValueKind

end TaskContract
