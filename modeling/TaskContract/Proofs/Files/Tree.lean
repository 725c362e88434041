import TaskContract.Files.Tree
import Mathlib.Data.List.Basic

/-!
# Walks through a file tree

A step of a walk depends on the tree only through what stands at the place it comes to. So a walk
leads to the same place in every tree that still has the directories of the first one, and a write
changes what is found at one place only.
-/

namespace TaskContract

/-! ## Paths -/

namespace Text

theorem splitOn_of_not_mem {c : CodePoint} {t : Text} (h : c ∉ t) : splitOn c t = [t] := by
  induction t with
  | nil => rfl
  | cons d rest ih =>
      rw [List.mem_cons, not_or] at h
      rw [splitOn, if_neg (Ne.symm h.1), ih h.2]

theorem not_mem_of_mem_splitOn {c : CodePoint} {t piece : Text} (h : piece ∈ splitOn c t) :
    c ∉ piece := by
  induction t generalizing piece with
  | nil =>
      obtain rfl := List.mem_singleton.mp h
      exact List.not_mem_nil
  | cons d rest ih =>
      rw [splitOn] at h
      split at h
      · rcases List.mem_cons.mp h with rfl | h
        · exact List.not_mem_nil
        · exact ih h
      · rename_i hd
        split at h
        · obtain rfl := List.mem_singleton.mp h
          exact fun hc => hd (List.mem_singleton.mp hc).symm
        · rename_i first more hsplit
          rcases List.mem_cons.mp h with rfl | h
          · have hfirst := ih (hsplit ▸ List.mem_cons_self)
            rw [List.mem_cons, not_or]
            exact ⟨Ne.symm hd, hfirst⟩
          · exact ih (hsplit ▸ List.mem_cons_of_mem _ h)

theorem join_append_singleton (separator : Text) {ts : List Text} (h : ts ≠ []) (t : Text) :
    join separator (ts ++ [t]) = join separator ts ++ (separator ++ t) := by
  induction ts with
  | nil => exact absurd rfl h
  | cons s rest ih =>
      cases rest with
      | nil => simp [join]
      | cons s' rest =>
          have hrest := ih (List.cons_ne_nil _ _)
          show s ++ separator ++ join separator (s' :: rest ++ [t])
            = s ++ separator ++ join separator (s' :: rest) ++ (separator ++ t)
          rw [hrest, ← List.append_assoc]

end Text

namespace Path

def child (dir : Path) (name : Text) : Path :=
  { dir with parts := dir.parts ++ [name] }

/-- A name that stands for something within a directory. -/
structure IsName (name : Text) : Prop where
  noSlash : CodePoint.ofChar '/' ∉ name
  ne_nil : name ≠ []
  ne_dot : name ≠ Text.ofString "."
  ne_dots : name ≠ Text.ofString ".."

/-- Whatever it is the ending of, a long ending makes a name. -/
theorem isName_append {base ending : Text} (hbase : CodePoint.ofChar '/' ∉ base)
    (hending : CodePoint.ofChar '/' ∉ ending) (hlong : 3 ≤ ending.length) :
    IsName (base ++ ending) := by
  have hlength : 3 ≤ (base ++ ending).length := by
    rw [List.length_append]
    exact Nat.le_add_left_of_le hlong
  refine ⟨?noSlash, ?ne_nil, ?ne_dot, ?ne_dots⟩
  case noSlash =>
    rw [List.mem_append, not_or]
    exact ⟨hbase, hending⟩
  all_goals
    intro h
    rw [h] at hlength
    exact absurd hlength (by decide)

theorem rootOf_of_ne {c : CodePoint} (hc : c ≠ CodePoint.ofChar '/') (rest : Text) :
    rootOf (c :: rest) = [] := by
  simp [rootOf, hc]

/-- The root of a text that begins with a slash is one slash or two. -/
theorem rootOf_slash (rest : Text) :
    ∃ more, rootOf (CodePoint.ofChar '/' :: rest) = CodePoint.ofChar '/' :: more := by
  unfold rootOf
  rw [List.takeWhile_cons_of_pos (by simp)]
  dsimp only
  split
  · exact ⟨_, rfl⟩
  · exact ⟨[], rfl⟩

theorem of_mem_namesOf {t name : Text} (h : name ∈ namesOf t) :
    name ≠ [] ∧ CodePoint.ofChar '/' ∉ name := by
  obtain ⟨hpiece, hcounts⟩ := List.mem_filter.mp h
  refine ⟨?_, Text.not_mem_of_mem_splitOn hpiece⟩
  rintro rfl
  cases hcounts

theorem div_eq_child (dir : Path) {name : Text} (h : IsName name) :
    dir / name = dir.child name := by
  have hroot : rootOf name = [] := by
    obtain ⟨c, rest, rfl⟩ := List.exists_cons_of_ne_nil h.ne_nil
    refine rootOf_of_ne ?_ rest
    rintro rfl
    exact h.noSlash List.mem_cons_self
  have hnames : namesOf name = [name] := by
    rw [namesOf, Text.splitOn_of_not_mem h.noSlash, List.filter_cons_of_pos]
    · rfl
    · simp [h.ne_nil, h.ne_dot]
  show dir.append (ofText name) = dir.child name
  rw [append, ofText, hroot, hnames]
  rfl

theorem parent_child (dir : Path) (name : Text) : (dir.child name).parent = dir := by
  rw [parent, child, List.dropLast_concat]

theorem name_child (dir : Path) (name : Text) : (dir.child name).name = name := by
  rw [Path.name, child, List.getLast?_concat]
  rfl

theorem text_child_ne_nil (dir : Path) {name : Text} (h : name ≠ []) :
    (dir.child name).text ≠ [] := by
  have hparts : (dir.parts ++ [name]).isEmpty = false := by simp
  rw [text, child, hparts, Bool.and_false]
  show dir.root ++ Text.join _ (dir.parts ++ [name]) ≠ []
  cases hdir : dir.parts with
  | nil => simp [Text.join, h]
  | cons part rest =>
      rw [← hdir, Text.join_append_singleton _ (by rw [hdir]; exact List.cons_ne_nil _ _)]
      simp [h]

theorem text_child_child (dir : Path) (inner name : Text) :
    ((dir.child inner).child name).text
      = (dir.child inner).text ++ (CodePoint.ofChar '/' :: name) := by
  have hparts : ∀ part, (dir.parts ++ [part]).isEmpty = false := by simp
  have hparts' : ((dir.parts ++ [inner]) ++ [name]).isEmpty = false := by simp
  rw [text, text, child, child, hparts', hparts, Bool.and_false]
  show dir.root ++ Text.join _ (dir.parts ++ [inner] ++ [name])
    = (dir.root ++ Text.join _ (dir.parts ++ [inner])) ++ _
  rw [Text.join_append_singleton _ (by simp), List.append_assoc]
  rfl

end Path

namespace FileTree

variable {t t' : FileTree}

/-! ## Entries -/

theorem entry_nil (t : FileTree) : t.entry? [] = some .directory :=
  if_pos rfl

theorem entry_insert_self (t : FileTree) {place : List Text} (h : place ≠ []) (e : Entry) :
    FileTree.entry? (t.insert place e) place = some e := by
  rw [ entry?, if_neg h, insert, List.lookup_cons_self]

theorem entry_insert_of_ne (t : FileTree) {place other : List Text} (h : other ≠ place)
    (e : Entry) : FileTree.entry? (t.insert place e) other = t.entry? other := by
  have hfilter : ∀ entries : List (List Text × Entry),
      (entries.filter fun x => decide (x.1 ≠ place)).lookup other = entries.lookup other := by
    intro entries
    induction entries with
    | nil => rfl
    | cons x rest ih =>
        obtain ⟨q, entry⟩ := x
        by_cases hq : q = place
        · have hne : (other == q) = false := beq_false_of_ne (hq ▸ h)
          rw [List.filter_cons_of_neg (by simp [hq]), ih, List.lookup_cons, hne]
        · rw [List.filter_cons_of_pos (by simp [hq]), List.lookup_cons, List.lookup_cons, ih]
  have hne : (other == place) = false := beq_false_of_ne h
  rw [ entry?, entry?, insert, List.lookup_cons, hne, hfilter]

/-! ## Steps and walks -/

def found (t : FileTree) (place : List Text) : Found :=
  match t.entry? place with
  | some .directory => .directory place
  | some (.file text) => .file place text
  | none => .missing place

theorem step_of_isName {name : Text} (h : Path.IsName name)
    (hlength : (FileName.bytes name).length ≤ nameLimit) (t : FileTree) (place : List Text) :
    t.step place name = .ok (t.found (place ++ [FileName.kept name])) := by
  have hspecial : ¬(name.isEmpty || decide (name = Text.ofString ".")) = true := by
    simp [h.ne_nil, h.ne_dot]
  rw [step, if_neg hspecial, if_neg h.ne_dots, if_neg (Nat.not_lt.mpr hlength)]
  dsimp only
  rw [found]
  cases t.entry? (place ++ [FileName.kept name]) with
  | none => rfl
  | some e => cases e <;> rfl

/-- A step leads to a directory or fails whatever the tree is, or it comes to a place. -/
theorem step_cases (place : List Text) (name : Text) :
    (∃ d, ∀ t : FileTree, t.step place name = .ok (.directory d))
      ∨ (∃ e, ∀ t : FileTree, t.step place name = .error e)
      ∨ ∃ q, ∀ t : FileTree, t.step place name = .ok (t.found q) := by
  by_cases hspecial : (name.isEmpty || decide (name = Text.ofString ".")) = true
  · exact Or.inl ⟨place, fun t => by rw [step, if_pos hspecial]⟩
  · by_cases hdots : name = Text.ofString ".."
    · exact Or.inl ⟨place.dropLast, fun t => by rw [step, if_neg hspecial, if_pos hdots]⟩
    · by_cases hlong : nameLimit < (FileName.bytes name).length
      · refine Or.inr (Or.inl ⟨.nameTooLong, fun t => ?_⟩)
        rw [step, if_neg hspecial, if_neg hdots, if_pos hlong]
      · refine Or.inr (Or.inr ⟨place ++ [FileName.kept name], fun t => ?_⟩)
        rw [step, if_neg hspecial, if_neg hdots, if_neg hlong]
        dsimp only
        rw [found]
        cases t.entry? (place ++ [FileName.kept name]) with
        | none => rfl
        | some e => cases e <;> rfl

theorem walk_append (t : FileTree) (start : Found) (names more : List Text) :
    t.walk start (names ++ more) = t.walk start names >>= fun f => t.walk f more := by
  induction names generalizing start with
  | nil =>
      rw [walk]
      rfl
  | cons name rest ih =>
      cases start with
      | directory place =>
          rw [List.cons_append, walk, walk]
          cases t.step place name with
          | error e => rfl
          | ok f => exact ih f
      | file place text => rfl
      | missing place => rfl

theorem found_of_directory {q : List Text} (h : t.entry? q = some .directory) :
    t.found q = .directory q := by
  rw [found, h]

theorem found_of_free {q : List Text} (h : t.entry? q ≠ some .directory) :
    t.found q = .missing q ∨ ∃ text, t.found q = .file q text := by
  rw [found]
  cases hentry : t.entry? q with
  | none => exact Or.inl rfl
  | some entry =>
      cases entry with
      | directory => exact absurd hentry h
      | file text => exact Or.inr ⟨text, rfl⟩

theorem found_eq_directory {q d : List Text} (h : t.found q = .directory d) :
    t.entry? q = some .directory := by
  rw [found] at h
  split at h
  · assumption
  · cases h
  · cases h

theorem found_eq_file {q place : List Text} {text : Text} (h : t.found q = .file place text) :
    q = place ∧ t.entry? q = some (.file text) := by
  unfold found at h
  split at h
  · cases h
  · rename_i entry hentry
    obtain ⟨rfl, rfl⟩ := Found.file.inj h
    exact ⟨rfl, hentry⟩
  · cases h

theorem found_eq_missing {q place : List Text} (h : t.found q = .missing place) :
    q = place ∧ t.entry? q = none := by
  unfold found at h
  split at h
  · cases h
  · cases h
  · rename_i hentry
    exact ⟨Found.missing.inj h, hentry⟩

theorem found_of_file {q : List Text} {text : Text} (h : t.entry? q = some (.file text)) :
    t.found q = .file q text := by
  rw [found, h]

/-- Only from a directory does a walk go on. -/
theorem walk_of_not_directory {f x : Found} (hf : ∀ d, f ≠ .directory d) {names : List Text}
    (h : t.walk f names = .ok x) : names = [] ∧ x = f := by
  cases names with
  | nil => exact ⟨rfl, (Except.ok.inj (by rwa [walk] at h)).symm⟩
  | cons name rest =>
      cases f with
      | directory d => exact absurd rfl (hf d)
      | file q text => cases h
      | missing q => cases h

/-- Does a tree have all the directories of another one? -/
def Keeps (t t' : FileTree) : Prop :=
  t'.current = t.current ∧ ∀ q, t.entry? q = some .directory → t'.entry? q = some .directory

theorem keeps_insert {place : List Text} (h : t.entry? place ≠ some .directory) (e : Entry) :
    t.Keeps (t.insert place e) := by
  refine ⟨rfl, fun q hq => ?_⟩
  have hne : q ≠ place := by
    rintro rfl
    exact h hq
  rw [entry_insert_of_ne t hne, hq]

/-- A walk comes to a directory, or to what is found at a place; a tree that has all directories of
the first one is walked to the same directory or place. -/
theorem Keeps.walk (h : t.Keeps t') {start : List Text} {names : List Text} {x : Found}
    (hwalk : t.walk (.directory start) names = .ok x) :
    (∃ d, x = .directory d ∧ t'.walk (.directory start) names = .ok (.directory d))
      ∨ ∃ q, x = t.found q ∧ t'.walk (.directory start) names = .ok (t'.found q) := by
  induction names generalizing start with
  | nil => exact Or.inl ⟨start, (Except.ok.inj hwalk).symm, rfl⟩
  | cons name rest ih =>
      rw [FileTree.walk] at hwalk ⊢
      rcases step_cases start name with ⟨d, hd⟩ | ⟨e, he⟩ | ⟨q, hq⟩
      · rw [hd] at hwalk ⊢
        exact ih hwalk
      · rw [he] at hwalk
        cases hwalk
      · rw [hq] at hwalk ⊢
        by_cases hdir : t.entry? q = some .directory
        · rw [found_of_directory hdir] at hwalk
          rw [found_of_directory (h.2 q hdir)]
          exact ih hwalk
        · -- where no directory stands this was the last name, whatever the other tree has there
          have hstop : ∀ d, t.found q ≠ .directory d := fun d hd => hdir (found_eq_directory hd)
          obtain ⟨rfl, rfl⟩ := walk_of_not_directory hstop hwalk
          refine Or.inr ⟨q, rfl, ?_⟩
          dsimp only
          rw [FileTree.walk]

/-! ## Looking up a path -/

theorem locate_eq_ok {p : Path} {x : Found} (h : t.locate p = .ok x) :
    textFault? p.text = none
      ∧ t.walk (.directory (if p.text.startsWith (Text.ofString "/") then [] else t.current))
        p.parts = .ok x := by
  rw [locate, locateAlong] at h
  cases hfault : textFault? p.text with
  | none =>
      rw [hfault] at h
      exact ⟨rfl, h⟩
  | some e =>
      rw [hfault] at h
      cases h

theorem locate_of_text {p : Path} (h : textFault? p.text = none) :
    t.locate p
      = t.walk (.directory (if p.text.startsWith (Text.ofString "/") then [] else t.current))
        p.parts := by
  rw [locate, locateAlong, h]

theorem locate_of_fault {p : Path} {e : FileFault} (h : textFault? p.text = some e) :
    t.locate p = .error e := by
  rw [locate, locateAlong, h]

theorem Keeps.locate (h : t.Keeps t') {p : Path} {x : Found} (hlocate : t.locate p = .ok x) :
    (∃ d, x = .directory d ∧ t'.locate p = .ok (.directory d))
      ∨ ∃ q, x = t.found q ∧ t'.locate p = .ok (t'.found q) := by
  obtain ⟨htext, hwalk⟩ := locate_eq_ok hlocate
  rw [locate_of_text htext, h.1]
  exact h.walk hwalk

theorem Keeps.locate_directory (h : t.Keeps t') {p : Path} {place : List Text}
    (hlocate : t.locate p = .ok (.directory place)) : t'.locate p = .ok (.directory place) := by
  rcases h.locate hlocate with ⟨d, hd, hlocate'⟩ | ⟨q, hq, hlocate'⟩
  · rw [hlocate', hd]
  · have hdir := found_eq_directory hq.symm
    rw [hlocate', hq, found_of_directory hdir, found_of_directory (h.2 q hdir)]

theorem startsWith_append {s : Text} (h : s ≠ []) (more : Text) :
    Text.startsWith (s ++ more) (Text.ofString "/") = Text.startsWith s (Text.ofString "/") := by
  obtain ⟨c, rest, rfl⟩ := List.exists_cons_of_ne_nil h
  rfl

/-- A name is looked up in its directory, if the whole path can be looked up. -/
theorem locate_child {dir : Path} {inner : Text} {x : Found} (hinner : inner ≠ [])
    (hdir : t.locate (dir.child inner) = .ok x) {name : Text}
    (htext : textFault? ((dir.child inner).child name).text = none) :
    t.locate ((dir.child inner).child name) = t.walk x [name] := by
  obtain ⟨-, hwalk⟩ := locate_eq_ok hdir
  rw [locate_of_text htext, Path.text_child_child,
    startsWith_append (Path.text_child_ne_nil dir hinner)]
  show t.walk _ ((dir.child inner).parts ++ [name]) = _
  rw [walk_append, hwalk]
  rfl

/-! ## Directories that are there or can be made -/

/-- The directory is there, or else it can be made in a directory that is. -/
def Offers (t : FileTree) (dir : Path) (place : List Text) : Prop :=
  t.locate dir = .ok (.directory place) ∨ t.locate dir = .ok (.missing place)

theorem isDirectory_of_locate {p : Path} {place : List Text}
    (h : t.locate p = .ok (.directory place)) : t.isDirectory p = .ok true := by
  rw [isDirectory, test, h]

theorem makeDirectories_of_directory {p : Path} {place : List Text} {disk : Disk}
    (h : t.locate p = .ok (.directory place)) : t.makeDirectories p disk = (.ok (), t) := by
  have hmake : t.makeDirectory p disk = .error .exists := by rw [makeDirectory, h]
  have hpresent : t.unlessPresent p .exists = (.ok (), t) := by
    rw [unlessPresent, isDirectory_of_locate h]
    rfl
  rw [makeDirectories]
  cases p.parts.length with
  | zero => rw [makeDirectoriesTo, hmake, ← hpresent]; rfl
  | succ n => rw [makeDirectoriesTo, hmake, ← hpresent]; rfl

theorem makeDirectories_of_missing {p : Path} {place : List Text}
    (h : t.locate p = .ok (.missing place)) :
    t.makeDirectories p = (.ok (), t.insert place .directory) := by
  have hmake : t.makeDirectory p = .ok (t.insert place .directory) := by rw [makeDirectory, h]
  rw [makeDirectories]
  cases p.parts.length with
  | zero => rw [makeDirectoriesTo, hmake]
  | succ n => rw [makeDirectoriesTo, hmake]

/-- No directory is made at a path that is too long to be looked up. -/
theorem makeDirectories_of_nameTooLong {p : Path} (h : textFault? p.text = some .nameTooLong) :
    t.makeDirectories p = (fail p .nameTooLong, t) := by
  have hlocate := locate_of_fault (t := t) h
  have hmake : t.makeDirectory p = .error .nameTooLong := by rw [makeDirectory, hlocate]
  have hunless : t.unlessPresent p .nameTooLong = (fail p .nameTooLong, t) := by
    have hdirectory : t.isDirectory p = fail p .nameTooLong := by
      rw [isDirectory, test, hlocate]
      rfl
    rw [unlessPresent, hdirectory]
    rfl
  rw [makeDirectories]
  cases p.parts.length with
  | zero => rw [makeDirectoriesTo, hmake, ← hunless]; rfl
  | succ n => rw [makeDirectoriesTo, hmake, ← hunless]; rfl

theorem entry_of_missing {p : Path} {place : List Text}
    (h : t.locate p = .ok (.missing place)) : t.entry? place = none := by
  have hkeeps : t.Keeps t := ⟨rfl, fun _ hq => hq⟩
  rcases hkeeps.locate h with ⟨d, hd, -⟩ | ⟨q, hq, -⟩
  · cases hd
  · obtain ⟨rfl, hentry⟩ := found_eq_missing hq.symm
    exact hentry

theorem entry_of_file {p : Path} {place : List Text} {text : Text}
    (h : t.locate p = .ok (.file place text)) : t.entry? place = some (.file text) := by
  have hkeeps : t.Keeps t := ⟨rfl, fun _ hq => hq⟩
  rcases hkeeps.locate h with ⟨d, hd, -⟩ | ⟨q, hq, -⟩
  · cases hd
  · obtain ⟨rfl, hentry⟩ := found_eq_file hq.symm
    exact hentry

theorem Offers.makeDirectories {dir : Path} {place : List Text} (h : t.Offers dir place) :
    ∃ t', t.makeDirectories dir = (.ok (), t') ∧ t.Keeps t'
      ∧ t'.locate dir = .ok (.directory place) ∧ ∀ q, q ≠ place → t'.entry? q = t.entry? q := by
  rcases h with hdir | hmissing
  · exact ⟨t, makeDirectories_of_directory hdir, ⟨rfl, fun _ hq => hq⟩, hdir, fun _ _ => rfl⟩
  · have hentry := entry_of_missing hmissing
    have hplace : place ≠ [] := by
      rintro rfl
      rw [entry_nil] at hentry
      cases hentry
    have hkeeps : t.Keeps (t.insert place .directory) :=
      keeps_insert (by rw [hentry]; exact nofun) _
    refine ⟨_, makeDirectories_of_missing hmissing, hkeeps, ?_,
      fun q hq => entry_insert_of_ne t hq _⟩
    rcases hkeeps.locate hmissing with ⟨d, hd, -⟩ | ⟨q, hq, hlocate⟩
    · cases hd
    · obtain ⟨rfl, -⟩ := found_eq_missing hq.symm
      rw [hlocate, found_of_directory (entry_insert_self t hplace _)]

/-! ## Writing and reading -/

/-- Portions that can all be written are texts that have a form in UTF-8. -/
theorem writable_eq_none {portions : List Portion} (h : (writable portions).2 = none) :
    ∃ pieces : List Text, portions = pieces.map .ok
      ∧ (∀ piece ∈ pieces, Encoding.utf8.fault? piece = none)
      ∧ (writable portions).1 = pieces.flatten := by
  induction portions with
  | nil => exact ⟨[], rfl, List.forall_mem_nil _, rfl⟩
  | cons portion rest ih =>
      cases portion with
      | error m => cases h
      | ok piece =>
          rw [writable] at h ⊢
          cases hpiece : Encoding.utf8.fault? piece with
          | some f =>
              rw [hpiece] at h
              cases h
          | none =>
              rw [hpiece] at h
              obtain ⟨pieces, rfl, hpieces, htext⟩ := ih h
              refine ⟨piece :: pieces, rfl, List.forall_mem_cons.mpr ⟨hpiece, hpieces⟩, ?_⟩
              rw [List.flatten_cons, ← htext]

theorem writable_of_encodable {pieces : List Text}
    (h : ∀ piece ∈ pieces, Encoding.utf8.fault? piece = none) :
    writable (pieces.map .ok) = (pieces.flatten, none) := by
  induction pieces with
  | nil => rfl
  | cons piece rest ih =>
      obtain ⟨hpiece, hrest⟩ := List.forall_mem_cons.mp h
      rw [List.map_cons, writable, hpiece, ih hrest]
      rfl

/-- A piece without a form in UTF-8 cannot be written, and the fault says so. -/
theorem writable_of_unencodable {pieces : List Text}
    (h : ¬ ∀ piece ∈ pieces, Encoding.utf8.fault? piece = none) :
    ∃ e, (writable (pieces.map .ok)).2 = some (.unencodable e) := by
  induction pieces with
  | nil => exact absurd (List.forall_mem_nil _) h
  | cons piece rest ih =>
      rw [List.map_cons, writable]
      cases hpiece : Encoding.utf8.fault? piece with
      | some e => exact ⟨e, rfl⟩
      | none => exact ih fun hrest => h (List.forall_mem_cons.mpr ⟨hpiece, hrest⟩)

variable {disk : Disk}

/-- The path leads to a file, or to a place in a directory where one can be put. -/
def Takes (t : FileTree) (p : Path) (place : List Text) : Prop :=
  t.locate p = .ok (.missing place) ∨ ∃ old, t.locate p = .ok (.file place old)

theorem takes_of_free {p : Path} {place : List Text} (hlocate : t.locate p = .ok (t.found place))
    (hfree : t.entry? place ≠ some .directory) : t.Takes p place := by
  rcases found_of_free hfree with hmissing | ⟨text, hfile⟩
  · exact Or.inl (hmissing ▸ hlocate)
  · exact Or.inr ⟨text, hfile ▸ hlocate⟩

theorem Takes.free {p : Path} {place : List Text} (h : t.Takes p place) :
    t.entry? place ≠ some .directory := by
  rcases h with hmissing | ⟨old, hfile⟩
  · rw [entry_of_missing hmissing]
    exact nofun
  · rw [entry_of_file hfile]
    exact fun heq => nomatch Option.some.inj heq

theorem Takes.write {p : Path} {place : List Text} (h : t.Takes p place)
    (portions : List Portion) (disk : Disk) :
    t.write p portions disk = t.put p place portions disk := by
  rw [FileTree.write]
  rcases h with hmissing | ⟨old, hfile⟩
  · rw [hmissing]
  · rw [hfile]

/-- A write that does not even open a file changes nothing. -/
theorem write_eq_put (t : FileTree) (p : Path) (portions : List Portion) (disk : Disk) :
    (∃ place, t.Takes p place ∧ t.write p portions disk = t.put p place portions disk)
      ∨ ∃ fault, t.write p portions disk = (fail p fault, t) := by
  rw [write]
  split
  · rename_i place old hlocate
    exact Or.inl ⟨place, Or.inr ⟨old, hlocate⟩, rfl⟩
  · rename_i place hlocate
    exact Or.inl ⟨place, Or.inl hlocate, rfl⟩
  · exact Or.inr ⟨_, rfl⟩
  · exact Or.inr ⟨_, rfl⟩

structure IsWritten (t : FileTree) (p : Path) (disk : Disk) (place : List Text)
    (pieces : List Text) : Prop where
  takes : t.Takes p place
  encodable : ∀ piece ∈ pieces, Encoding.utf8.fault? piece = none
  opened : disk.opening place = none
  taken : disk.taking place pieces.flatten = none

theorem IsWritten.write {p : Path} {place : List Text} {pieces : List Text}
    (h : IsWritten t p disk place pieces) :
    t.write p (pieces.map .ok) disk = (.ok (), t.insert place (.file pieces.flatten)) := by
  rw [h.takes.write, put, h.opened, writable_of_encodable h.encodable]
  dsimp only
  rw [h.taken]

theorem write_eq_ok {p : Path} {portions : List Portion}
    (h : t.write p portions disk = (.ok (), t')) :
    ∃ place pieces, portions = pieces.map .ok ∧ IsWritten t p disk place pieces
      ∧ t' = t.insert place (.file pieces.flatten) := by
  rcases write_eq_put t p portions disk with ⟨place, htakes, hput⟩ | ⟨fault, hfail⟩
  · rw [hput, put] at h
    split at h
    · cases (Prod.mk.inj h).1
    · rename_i hopened
      dsimp only at h
      split at h
      · cases (Prod.mk.inj h).1
      · rename_i htaken
        split at h
        · rename_i hfault
          obtain ⟨pieces, rfl, hpieces, htext⟩ := writable_eq_none hfault
          rw [htext] at h htaken
          exact ⟨place, pieces, rfl, ⟨htakes, hpieces, hopened, htaken⟩, (Prod.mk.inj h).2.symm⟩
        · cases (Prod.mk.inj h).1
  · rw [hfail] at h
    cases (Prod.mk.inj h).1

section

variable {p : Path} {place : List Text} {pieces : List Text} (htakes : t.Takes p place)

include htakes

theorem write_of_writable (hpieces : ∀ piece ∈ pieces, Encoding.utf8.fault? piece = none) :
    t.write p (pieces.map .ok) = (.ok (), t.insert place (.file pieces.flatten)) :=
  IsWritten.write ⟨htakes, hpieces, rfl, rfl⟩

/-- A piece that cannot be written fails the write, and the error says so. -/
theorem write_of_unencodable
    (hpieces : ¬ ∀ piece ∈ pieces, Encoding.utf8.fault? piece = none) :
    ∃ e, (t.write p (pieces.map .ok)).1 = .error { fault := .unencodable e, path := p } := by
  obtain ⟨e, he⟩ := writable_of_unencodable hpieces
  refine ⟨e, ?_⟩
  rw [htakes.write, put]
  dsimp only
  rw [he]
  rfl

end

theorem walk_singleton (t : FileTree) (place : List Text) (name : Text) :
    t.walk (.directory place) [name] = t.step place name := by
  rw [walk]
  cases t.step place name with
  | error e => rfl
  | ok x =>
      dsimp only
      rw [walk]

section

variable {dir : Path} {inner name : Text} {place : List Text}

theorem locate_name (hinner : inner ≠ [])
    (hdir : t.locate (dir.child inner) = .ok (.directory place)) (hname : Path.IsName name)
    (hlength : (FileName.bytes name).length ≤ nameLimit)
    (htext : textFault? ((dir.child inner).child name).text = none) :
    t.locate ((dir.child inner).child name)
      = .ok (t.found (place ++ [FileName.kept name])) := by
  rw [locate_child hinner hdir htext, walk_singleton, step_of_isName hname hlength]

end

end FileTree

end TaskContract
