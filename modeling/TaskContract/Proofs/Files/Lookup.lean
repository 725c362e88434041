import TaskContract.Proofs.Files.Tree
import TaskContract.Proofs.Text

/-!
# Where a path is looked up

A path is walked along its names, and the last of them is a step out of a directory. So paths that
differ in their last names only are looked up in the same directory, and what stands at the end of
a path is named for its last name.
-/

namespace TaskContract

/-! ## What keeps a text from being looked up -/

theorem textFault_eq_none_iff {text : Text} :
    FileTree.textFault? text = none ↔ (∀ c ∈ text, Encoding.fileName.covers c = true)
      ∧ CodePoint.ofNat 0 ∉ text ∧ (FileName.bytes text).length < FileTree.pathLimit := by
  rw [FileTree.textFault?, ← Encoding.fault_eq_none_iff]
  cases Encoding.fileName.fault? text with
  | some f => exact ⟨nofun, nofun⟩
  | none =>
      by_cases hnul : CodePoint.ofNat 0 ∈ text
      · simp [hnul]
      · simp [hnul]

theorem meansAbsence_of_textFault {text : Text} {e : FileFault}
    (h : FileTree.textFault? text = some e)
    (hlength : (FileName.bytes text).length < FileTree.pathLimit) : e.meansAbsence = true := by
  rw [FileTree.textFault?] at h
  split at h
  · cases h
    rfl
  · split at h
    · cases h
      rfl
    · rw [if_neg (Nat.not_le.mpr hlength)] at h
      cases h

theorem textFault_of_append {front back : Text}
    (h : FileTree.textFault? (front ++ back) = none) : FileTree.textFault? front = none := by
  rw [textFault_eq_none_iff] at h ⊢
  obtain ⟨hcovers, hnul, hlength⟩ := h
  refine ⟨fun c hc => hcovers c (List.mem_append_left back hc), ?_, ?_⟩
  · exact fun hmem => hnul (List.mem_append_left back hmem)
  · have hbytes : FileName.bytes (front ++ back) = FileName.bytes front ++ FileName.bytes back :=
      List.flatMap_append
    rw [hbytes, List.length_append] at hlength
    omega

/-! ## Texts with an ending -/

/-- Pieces without the separator stand behind one another in the last piece. -/
theorem Text.splitOn_append {c : CodePoint} (t : Text) {ending : Text} (h : c ∉ ending) :
    ∃ front last, Text.splitOn c t = front ++ [last]
      ∧ Text.splitOn c (t ++ ending) = front ++ [last ++ ending] := by
  induction t with
  | nil => exact ⟨[], [], rfl, Text.splitOn_of_not_mem h⟩
  | cons d rest ih =>
      obtain ⟨front, last, hrest, hboth⟩ := ih
      by_cases hd : d = c
      · refine ⟨[] :: front, last, ?_, ?_⟩
        · rw [Text.splitOn, if_pos hd, hrest]
          rfl
        · rw [List.cons_append, Text.splitOn, if_pos hd, hboth]
          rfl
      · rw [List.cons_append, Text.splitOn, Text.splitOn, if_neg hd, if_neg hd, hrest, hboth]
        cases front with
        | nil => exact ⟨[], d :: last, rfl, rfl⟩
        | cons piece pieces => exact ⟨(d :: piece) :: pieces, last, rfl, rfl⟩

namespace Path

/-- Is the text an ending that makes a name of whatever it follows? -/
structure IsEnding (ending : Text) : Prop where
  noSlash : CodePoint.ofChar '/' ∉ ending
  long : 3 ≤ ending.length

theorem IsEnding.isName {base ending : Text} (h : IsEnding ending)
    (hbase : CodePoint.ofChar '/' ∉ base) : IsName (base ++ ending) :=
  isName_append hbase h.noSlash h.long

def counts (name : Text) : Bool :=
  !name.isEmpty && name ≠ Text.ofString "."

/-- The names of a text with an ending: all but the last are those of the text alone, which may
have one more. -/
theorem namesOf_append (t : Text) {ending : Text} (h : IsEnding ending) :
    ∃ front base, CodePoint.ofChar '/' ∉ base ∧ namesOf (t ++ ending) = front ++ [base ++ ending]
      ∧ (namesOf t = front ∨ namesOf t = front ++ [base] ∧ base ≠ []) := by
  obtain ⟨front, base, ht, hboth⟩ := Text.splitOn_append t h.noSlash
  have hbase : CodePoint.ofChar '/' ∉ base := by
    apply Text.not_mem_of_mem_splitOn (t := t)
    rw [ht]
    exact List.mem_append_right front List.mem_cons_self
  have hname := h.isName hbase
  refine ⟨front.filter counts, base, hbase, ?_, ?_⟩
  · have hcounts : counts (base ++ ending) = true := by
      simp [counts, hname.ne_nil, hname.ne_dot]
    show (Text.splitOn '/' (t ++ ending)).filter counts = _
    rw [hboth, List.filter_append, List.filter_cons_of_pos hcounts]
    rfl
  · show (Text.splitOn '/' t).filter counts = _ ∨ (Text.splitOn '/' t).filter counts = _ ∧ _
    rw [ht, List.filter_append]
    by_cases hcounts : counts base = true
    · refine Or.inr ⟨by rw [List.filter_cons_of_pos hcounts]; rfl, ?_⟩
      rintro rfl
      cases hcounts
    · refine Or.inl ?_
      rw [List.filter_cons_of_neg hcounts, List.filter_nil, List.append_nil]

theorem rootOf_append (t : Text) {ending : Text} (h : CodePoint.ofChar '/' ∉ ending)
    (hne : ending ≠ []) : rootOf (t ++ ending) = rootOf t := by
  have hslashes : (t ++ ending).takeWhile (fun c => decide (c = CodePoint.ofChar '/'))
      = t.takeWhile fun c => decide (c = CodePoint.ofChar '/') := by
    induction t with
    | nil =>
        obtain ⟨c, rest, rfl⟩ := List.exists_cons_of_ne_nil hne
        have hc : c ≠ CodePoint.ofChar '/' := by
          rintro rfl
          exact h List.mem_cons_self
        simp [hc]
    | cons d rest ih =>
        rw [List.cons_append]
        by_cases hd : d = CodePoint.ofChar '/'
        · simp [hd, ih]
        · simp [hd]
  unfold rootOf
  rw [hslashes]

/-- A text with an ending names something in a directory: the one that the text alone leads to, or
the one around that. -/
theorem div_append (dir : Path) (t : Text) {ending : Text} (h : IsEnding ending) :
    ∃ root front base, CodePoint.ofChar '/' ∉ base
      ∧ dir.append (ofText (t ++ ending)) = ⟨root, front ++ [base ++ ending]⟩
      ∧ (dir.append (ofText t) = ⟨root, front⟩
        ∨ dir.append (ofText t) = ⟨root, front ++ [base]⟩ ∧ base ≠ []) := by
  have hne : ending ≠ [] := by
    rintro rfl
    exact absurd h.long (by decide)
  obtain ⟨front, base, hbase, hnames, hrest⟩ := namesOf_append t h
  have hroot := rootOf_append t h.noSlash hne
  have hdiv : ∀ s : Text, dir.append (ofText s) = if (rootOf s).isEmpty then
      { dir with parts := dir.parts ++ namesOf s } else ⟨rootOf s, namesOf s⟩ := fun _ => rfl
  rw [hdiv, hdiv, hroot, hnames]
  by_cases hrelative : (rootOf t).isEmpty = true
  · rw [if_pos hrelative, if_pos hrelative]
    refine ⟨dir.root, dir.parts ++ front, base, hbase, by rw [List.append_assoc], ?_⟩
    rcases hrest with hrest | ⟨hrest, hbase⟩
    · exact Or.inl (by rw [hrest])
    · exact Or.inr ⟨by rw [hrest, List.append_assoc], hbase⟩
  · rw [if_neg hrelative, if_neg hrelative]
    refine ⟨rootOf t, front, base, hbase, rfl, ?_⟩
    rcases hrest with hrest | ⟨hrest, hbase⟩
    · exact Or.inl (by rw [hrest])
    · exact Or.inr ⟨by rw [hrest], hbase⟩

/-! ## Where a walk starts -/

theorem text_of_parts {p : Path} (h : p.parts ≠ []) :
    p.text = p.root ++ Text.join (Text.ofString "/") p.parts := by
  have hparts : p.parts.isEmpty = false := by simp [h]
  rw [text, hparts, Bool.and_false]
  rfl

end Path

theorem Text.startsWith_slash (t : Text) :
    t.startsWith (Text.ofString "/") = (t.head? == some (CodePoint.ofChar '/')) := by
  cases t with
  | nil => rfl
  | cons c rest =>
      show (CodePoint.ofChar '/' == c && List.isPrefixOf [] rest) = _
      rw [List.isPrefixOf_nil_left, Bool.and_true, List.head?_cons, Bool.beq_comm]
      rfl

/-- Only the front of a path tells whether its text begins with a slash, if a name follows. -/
theorem Text.head_join (front : List Text) {name : Text} (hne : name ≠ [])
    (hslash : CodePoint.ofChar '/' ∉ name) (more : List Text) :
    ((Text.join (Text.ofString "/") (front ++ name :: more)).head?
        == some (CodePoint.ofChar '/'))
      = match front with
        | [] => false
        | first :: _ => ((first ++ Text.ofString "/").head? == some (CodePoint.ofChar '/')) := by
  have hjoin : ∀ (first : Text) (rest : List Text), rest ≠ [] →
      Text.join (Text.ofString "/") (first :: rest)
        = first ++ Text.ofString "/" ++ Text.join (Text.ofString "/") rest := by
    intro first rest hrest
    cases rest with
    | nil => exact absurd rfl hrest
    | cons next others => rfl
  cases front with
  | nil =>
      obtain ⟨c, rest, rfl⟩ := List.exists_cons_of_ne_nil hne
      have hc : c ≠ CodePoint.ofChar '/' := by
        rintro rfl
        exact hslash List.mem_cons_self
      cases more with
      | nil => simp [Text.join, hc]
      | cons next others =>
          rw [List.nil_append, hjoin _ _ (List.cons_ne_nil _ _)]
          simp [hc]
  | cons first rest =>
      rw [List.cons_append, hjoin _ _ (by simp)]
      cases first with
      | nil => rfl
      | cons c others => rfl

namespace FileTree

variable {t t' : FileTree}

def startOf (t : FileTree) (p : Path) : List Text :=
  if p.text.startsWith (Text.ofString "/") then [] else t.current

/-- Paths with a common front start in the same directory. -/
theorem startOf_eq (t : FileTree) (root : Text) (front : List Text) {name name' : Text}
    (hname : name ≠ [] ∧ CodePoint.ofChar '/' ∉ name)
    (hname' : name' ≠ [] ∧ CodePoint.ofChar '/' ∉ name') (more more' : List Text) :
    t.startOf ⟨root, front ++ name :: more⟩ = t.startOf ⟨root, front ++ name' :: more'⟩ := by
  have hstarts : (Path.mk root (front ++ name :: more)).text.startsWith (Text.ofString "/")
      = (Path.mk root (front ++ name' :: more')).text.startsWith (Text.ofString "/") := by
    rw [Path.text_of_parts (by simp), Path.text_of_parts (by simp), Text.startsWith_slash,
      Text.startsWith_slash]
    cases root with
    | nil =>
        dsimp only
        rw [List.nil_append, List.nil_append, Text.head_join front hname.1 hname.2,
          Text.head_join front hname'.1 hname'.2]
    | cons c rest => rfl
  rw [startOf, startOf, hstarts]

theorem Keeps.startOf (h : t.Keeps t') (p : Path) : t'.startOf p = t.startOf p := by
  rw [FileTree.startOf, FileTree.startOf, h.1]

theorem walk_of_locate {p : Path} {x : Found} (h : t.locate p = .ok x) :
    t.walk (.directory (t.startOf p)) p.parts = .ok x :=
  (locate_eq_ok h).2

theorem locate_of_walk {p : Path} (h : textFault? p.text = none) :
    t.locate p = t.walk (.directory (t.startOf p)) p.parts :=
  locate_of_text h

/-! ## The last name -/

theorem walk_last {start : List Text} {front : List Text} {name : Text}
    (hname : Path.IsName name) {x : Found}
    (h : t.walk (.directory start) (front ++ [name]) = .ok x) :
    ∃ d, t.walk (.directory start) front = .ok (.directory d)
      ∧ (FileName.bytes name).length ≤ nameLimit ∧ x = t.found (d ++ [FileName.kept name]) := by
  rw [walk_append] at h
  cases hfront : t.walk (.directory start) front with
  | error e =>
      rw [hfront] at h
      cases h
  | ok y =>
      rw [hfront] at h
      have hlast : t.walk y [name] = .ok x := h
      cases y with
      | directory d =>
          rw [walk_singleton] at hlast
          have hlength : (FileName.bytes name).length ≤ nameLimit := by
            by_contra hlong
            have hspecial : ¬(name.isEmpty || decide (name = Text.ofString ".")) = true := by
              simp [hname.ne_nil, hname.ne_dot]
            rw [step, if_neg hspecial, if_neg hname.ne_dots,
              if_pos (Nat.not_le.mp hlong)] at hlast
            cases hlast
          rw [step_of_isName hname hlength] at hlast
          exact ⟨d, rfl, hlength, (Except.ok.inj hlast).symm⟩
      | file q text => cases hlast
      | missing q => cases hlast

theorem locate_last {p : Path} {front : List Text} {name : Text}
    (hparts : p.parts = front ++ [name]) (hname : Path.IsName name) {x : Found}
    (h : t.locate p = .ok x) :
    ∃ d, t.walk (.directory (t.startOf p)) front = .ok (.directory d)
      ∧ (FileName.bytes name).length ≤ nameLimit ∧ x = t.found (d ++ [FileName.kept name]) := by
  have hwalk := walk_of_locate h
  rw [hparts] at hwalk
  exact walk_last hname hwalk

/-- What is at a name in a directory is looked up there. -/
theorem directory_of_child {dir : Path} {inner name : Text} (hinner : Path.IsName inner)
    (hname : Path.IsName name) {x : Found}
    (h : t.locate ((dir.child inner).child name) = .ok x) :
    ∃ d, t.locate (dir.child inner) = .ok (.directory d)
      ∧ (FileName.bytes name).length ≤ nameLimit ∧ x = t.found (d ++ [FileName.kept name]) := by
  obtain ⟨d, hwalk, hlength, hx⟩ := locate_last rfl hname h
  refine ⟨d, ?_, hlength, hx⟩
  have htext := (locate_eq_ok h).1
  rw [Path.text_child_child] at htext
  rw [locate_of_walk (textFault_of_append htext)]
  have hstart : t.startOf (dir.child inner) = t.startOf ((dir.child inner).child name) := by
    have heq := startOf_eq t dir.root dir.parts
      ⟨hinner.ne_nil, hinner.noSlash⟩ ⟨hinner.ne_nil, hinner.noSlash⟩ [] [name]
    simpa [Path.child] using heq
  rw [hstart]
  exact hwalk

/-- A file under a name in a directory has its place for that name. -/
theorem Takes.of_name {dir : Path} {inner name : Text} {place q : List Text}
    (h : t.Takes ((dir.child inner).child name) q) (hinner : Path.IsName inner)
    (hdir : t.locate (dir.child inner) = .ok (.directory place)) (hname : Path.IsName name) :
    q = place ++ [FileName.kept name] ∧ (FileName.bytes name).length ≤ nameLimit
      ∧ textFault? ((dir.child inner).child name).text = none := by
  have hfound : ∀ x, t.locate ((dir.child inner).child name) = .ok x →
      (FileName.bytes name).length ≤ nameLimit ∧ x = t.found (place ++ [FileName.kept name])
        ∧ textFault? ((dir.child inner).child name).text = none := by
    intro x hlocate
    obtain ⟨d, hdir', hlength, hx⟩ := directory_of_child hinner hname hlocate
    rw [hdir] at hdir'
    obtain rfl := Found.directory.inj (Except.ok.inj hdir')
    exact ⟨hlength, hx, (locate_eq_ok hlocate).1⟩
  rcases h with hmissing | ⟨old, hfile⟩
  · obtain ⟨hlength, hx, htext⟩ := hfound _ hmissing
    exact ⟨(found_eq_missing hx.symm).1.symm, hlength, htext⟩
  · obtain ⟨hlength, hx, htext⟩ := hfound _ hfile
    exact ⟨(found_eq_file hx.symm).1.symm, hlength, htext⟩

/-- A file that is written under a name in a directory stands there, and nothing else changes. -/
theorem write_name_eq_ok {dir : Path} {inner name : Text} {place : List Text} {disk : Disk}
    (hinner : Path.IsName inner) (hdir : t.locate (dir.child inner) = .ok (.directory place))
    (hname : Path.IsName name) {portions : List Portion}
    (h : t.write ((dir.child inner).child name) portions disk = (.ok (), t')) :
    ∃ pieces, portions = pieces.map .ok
      ∧ IsWritten t ((dir.child inner).child name) disk (place ++ [FileName.kept name]) pieces
      ∧ t'.locate ((dir.child inner).child name)
        = .ok (.file (place ++ [FileName.kept name]) pieces.flatten)
      ∧ t.Keeps t' ∧ t' = t.insert (place ++ [FileName.kept name]) (.file pieces.flatten) := by
  obtain ⟨q, pieces, rfl, hwritten, rfl⟩ := write_eq_ok h
  obtain ⟨rfl, hlength, htext⟩ := hwritten.takes.of_name hinner hdir hname
  have hkeeps : t.Keeps (t.insert (place ++ [FileName.kept name]) (.file pieces.flatten)) :=
    keeps_insert hwritten.takes.free _
  refine ⟨pieces, rfl, hwritten, ?_, hkeeps, rfl⟩
  rw [locate_name hinner.ne_nil (hkeeps.locate_directory hdir) hname hlength htext,
    found_of_file (entry_insert_self t (by simp) _)]

/-- Names in one directory are looked up in the same place, if one of them can be and the other is
not too long. -/
theorem locate_sibling {dir : Path} {name name' : Text} (hname : Path.IsName name)
    (hname' : Path.IsName name') {x : Found} (h : t.locate (dir.child name) = .ok x)
    (htext : textFault? (dir.child name').text = none)
    (hlength : (FileName.bytes name').length ≤ nameLimit) :
    ∃ d, x = t.found (d ++ [FileName.kept name])
      ∧ t.locate (dir.child name') = .ok (t.found (d ++ [FileName.kept name'])) := by
  obtain ⟨d, hwalk, _, hx⟩ := locate_last rfl hname h
  refine ⟨d, hx, ?_⟩
  have hstart : t.startOf (dir.child name') = t.startOf (dir.child name) :=
    startOf_eq t dir.root dir.parts ⟨hname'.ne_nil, hname'.noSlash⟩
      ⟨hname.ne_nil, hname.noSlash⟩ [] []
  rw [locate_of_walk htext, hstart]
  show t.walk _ (dir.parts ++ [name']) = _
  rw [walk_append, hwalk]
  show t.walk (.directory d) [name'] = _
  rw [walk_singleton, step_of_isName hname' hlength]

/-! ## What cannot be looked up -/

section

variable {p : Path} {e : FileFault}

theorem step_eq_error {place : List Text} {name : Text} (h : t.step place name = .error e) :
    e = .nameTooLong := by
  unfold step at h
  split at h
  · cases h
  · split at h
    · cases h
    · split at h
      · exact (Except.error.inj h).symm
      · dsimp only at h
        split at h <;> cases h

theorem walk_eq_error {found : Found} {names : List Text} (h : t.walk found names = .error e) :
    e = .nameTooLong ∨ e.meansAbsence = true := by
  induction names generalizing found with
  | nil => cases found <;> cases h
  | cons name rest ih =>
      cases found with
      | directory place =>
          rw [walk] at h
          split at h
          · exact ih h
          · rename_i hstep
            obtain rfl := Except.error.inj h
            exact Or.inl (step_eq_error hstep)
      | file place text =>
          obtain rfl := Except.error.inj h
          exact Or.inr rfl
      | missing place =>
          obtain rfl := Except.error.inj h
          exact Or.inr rfl

/-- What cannot be looked up has too long a path or name, or it cannot be there at all. -/
theorem locate_eq_error (h : t.locate p = .error e) : e = .nameTooLong ∨ e.meansAbsence = true := by
  cases htext : textFault? p.text with
  | none =>
      rw [locate_of_text htext] at h
      exact walk_eq_error h
  | some fault =>
      rw [locate_of_fault htext] at h
      obtain rfl := Except.error.inj h
      unfold textFault? at htext
      split at htext
      · obtain rfl := Option.some.inj htext
        exact Or.inr rfl
      · split at htext
        · obtain rfl := Option.some.inj htext
          exact Or.inr rfl
        · split at htext
          · exact Or.inl (Option.some.inj htext).symm
          · cases htext

theorem pathExists_eq_error {e : FileError} (h : t.pathExists p = .error e) :
    e.fault = .nameTooLong := by
  unfold pathExists test at h
  split at h
  · cases h
  · rename_i fault hlocate
    split at h
    · cases h
    · rename_i habsence
      obtain rfl := Except.error.inj h
      exact (locate_eq_error hlocate).resolve_right habsence

end

end FileTree

end TaskContract
