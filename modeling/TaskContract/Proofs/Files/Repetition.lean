import Mathlib.Data.List.Induction
import TaskContract.Proofs.Files.Growth

/-!
# Operations that are repeated

An operation on files that has succeeded can be repeated on whatever has become of its result: a
directory that has been made is there, and a file that has been written is written over with the
same text. So all that matters of operations that are repeated is, for every place, the last one
that puts a file there.
-/

namespace TaskContract.FileTree

variable {t t' t'' u : FileTree} {disk : Disk}

/-- Where an operation puts which text, once it has succeeded. -/
def putOf (t : FileTree) : FileOperation → Option (List Text × Text)
  | .makeRoom _ => none
  | .write file portions =>
    match t.locate file with
    | .ok (.file place _) => some (place, (writable portions).1)
    | _ => none

def overwrite (t : FileTree) : Option (List Text × Text) → FileTree
  | none => t
  | some (place, text) => t.insert place (.file text)

def overwriteAll (t : FileTree) (puts : List (Option (List Text × Text))) : FileTree :=
  puts.foldl overwrite t

def textAt (q : List Text) (put : Option (List Text × Text)) : Option Text :=
  put.bind fun x => if x.1 = q then some x.2 else none

theorem textAt_eq_some {q : List Text} {put : Option (List Text × Text)} {text : Text} :
    textAt q put = some text ↔ put = some (q, text) := by
  cases put with
  | none => exact ⟨nofun, nofun⟩
  | some x =>
      obtain ⟨place, text'⟩ := x
      show (if place = q then some text' else none) = some text ↔ _
      by_cases hplace : place = q
      · rw [if_pos hplace, hplace, Option.some_inj, Option.some_inj, Prod.mk.injEq]
        exact ⟨fun h => ⟨rfl, h⟩, And.right⟩
      · rw [if_neg hplace, Option.some_inj, Prod.mk.injEq]
        exact ⟨nofun, fun h => absurd h.1 hplace⟩

/-- Something is put only at the place of a file. -/
theorem of_putOf {op : FileOperation} {q : List Text} {text : Text}
    (h : t.putOf op = some (q, text)) : ∃ file portions old, op = .write file portions
      ∧ t.locate file = .ok (.file q old) ∧ text = (writable portions).1 := by
  cases op with
  | makeRoom dir => cases h
  | write file portions =>
      rw [putOf] at h
      split at h
      · rename_i place old hlocate
        obtain ⟨rfl, rfl⟩ := Prod.mk.inj (Option.some.inj h)
        exact ⟨file, portions, old, rfl, hlocate, rfl⟩
      · cases h

def lastText (puts : List (Option (List Text × Text))) (q : List Text) : Option Text :=
  puts.reverse.findSome? (textAt q)

theorem lastText_concat (puts : List (Option (List Text × Text)))
    (put : Option (List Text × Text)) (q : List Text) :
    lastText (puts ++ [put]) q = (textAt q put).or (lastText puts q) := by
  rw [lastText, List.reverse_append, List.reverse_singleton, List.singleton_append,
    List.findSome?_cons]
  cases textAt q put <;> rfl

theorem entry_overwrite {put : Option (List Text × Text)} (h : ∀ text, put ≠ some ([], text))
    (t : FileTree) (q : List Text) :
    FileTree.entry? (t.overwrite put) q = ((textAt q put).map Entry.file).or (t.entry? q) := by
  cases put with
  | none => rfl
  | some x =>
      obtain ⟨place, text⟩ := x
      have hplace : place ≠ [] := by
        rintro rfl
        exact h text rfl
      show FileTree.entry? (t.insert place (.file text)) q
        = ((if place = q then some text else none).map Entry.file).or (t.entry? q)
      by_cases hq : q = place
      · rw [hq, entry_insert_self _ hplace, if_pos rfl]
        rfl
      · rw [entry_insert_of_ne _ hq, if_neg (Ne.symm hq)]
        rfl

def SparesRoot (puts : List (Option (List Text × Text))) : Prop :=
  ∀ text, some ([], text) ∉ puts

theorem entry_overwriteAll {puts : List (Option (List Text × Text))} (h : SparesRoot puts)
    (t : FileTree) (q : List Text) :
    FileTree.entry? (t.overwriteAll puts) q = ((lastText puts q).map Entry.file).or (t.entry? q) := by
  induction puts using List.reverseRecOn with
  | nil => rfl
  | append_singleton puts put ih =>
      have hputs : SparesRoot puts := fun text hmem => h text (List.mem_append_left _ hmem)
      have hput : ∀ text, put ≠ some ([], text) := by
        rintro text rfl
        exact h text (List.mem_append_right _ (List.mem_singleton_self _))
      rw [overwriteAll, List.foldl_append, lastText_concat]
      show FileTree.entry? (overwrite (t.overwriteAll puts) put) q = _
      rw [entry_overwrite hput, ih hputs]
      cases textAt q put <;> rfl

/-! ## One operation -/

/-- In every tree that has grown from this one, the operation succeeds and puts its text. -/
def Repeats (t : FileTree) (disk : Disk) (op : FileOperation) : Prop :=
  ∀ u, t.Grows u → u.perform disk op = (.ok (), u.overwrite (u.putOf op)) ∧ u.putOf op = t.putOf op

theorem Repeats.of_grows {op : FileOperation} (h : t.Repeats disk op) (hgrows : t.Grows t') :
    t'.Repeats disk op := by
  intro u hu
  obtain ⟨hperform, hput⟩ := h u (hgrows.trans hu)
  exact ⟨hperform, hput.trans (h t' hgrows).2.symm⟩

theorem IsWritten.again {p : Path} {place : List Text} {pieces : List Text}
    (h : IsWritten t p disk place pieces)
    (hu : (t.insert place (.file pieces.flatten)).Grows u) :
    IsWritten u p disk place pieces ∧ ∃ old, u.locate p = .ok (.file place old) := by
  obtain ⟨old, hold⟩ := hu.file place _ (entry_insert_self t (ne_nil_of_entry h.takes.free) _)
  have hlocate := (h.grows.trans hu).locate_of_takes h.takes
  rw [found_of_file hold] at hlocate
  exact ⟨⟨Or.inr ⟨old, hlocate⟩, h.encodable, h.opened, h.taken⟩, old, hlocate⟩

theorem putOf_write {p : Path} {place : List Text} {pieces : List Text} {old : Text}
    (hlocate : u.locate p = .ok (.file place old))
    (hpieces : ∀ piece ∈ pieces, Encoding.utf8.fault? piece = none) :
    u.putOf (.write p (pieces.map .ok)) = some (place, pieces.flatten) := by
  rw [putOf, hlocate, writable_of_encodable hpieces]

/-- An operation that succeeds puts its text, or makes room, and can be repeated. -/
theorem repeats_of_perform {op : FileOperation} (h : t.perform disk op = (.ok (), t')) :
    t'.Repeats disk op
      ∧ ((∃ dir, op = .makeRoom dir ∧ t.MakesRoom t')
        ∨ ∃ place text, t'.putOf op = some (place, text) ∧ t.entry? place ≠ some .directory
          ∧ t' = t.insert place (.file text)) := by
  cases op with
  | makeRoom dir =>
      have hmake : t.makeDirectories dir disk = (.ok (), t') := h
      have hroom := t.makeDirectories_makesRoom dir disk
      rw [hmake] at hroom
      obtain ⟨place, hdir⟩ := locate_of_makeDirectories hmake
      refine ⟨?_, Or.inl ⟨dir, rfl, hroom⟩⟩
      intro u hu
      exact ⟨makeDirectories_of_directory (hu.keeps.locate_directory hdir), rfl⟩
  | write file portions =>
      obtain ⟨place, pieces, rfl, hwritten, rfl⟩ := write_eq_ok h
      have hput := putOf_write hwritten.locate hwritten.encodable
      refine ⟨?_, Or.inr ⟨place, _, hput, hwritten.takes.free, rfl⟩⟩
      intro u hu
      obtain ⟨hagain, old, hlocate⟩ := hwritten.again hu
      have hput' := putOf_write hlocate hwritten.encodable
      refine ⟨?_, hput'.trans hput.symm⟩
      rw [hput']
      exact hagain.write

theorem Repeats.makeRoom {dir : Path} (h : t.Repeats disk (.makeRoom dir)) :
    ∃ place, t.locate dir = .ok (.directory place) :=
  locate_of_makeDirectories (h t (.refl t)).1

theorem Repeats.write {p : Path} {portions : List Portion} (h : t.Repeats disk (.write p portions)) :
    ∃ (place pieces : List Text) (old : Text), portions = pieces.map .ok
      ∧ (∀ piece ∈ pieces, Encoding.utf8.fault? piece = none)
      ∧ t.locate p = .ok (.file place old)
      ∧ t.putOf (.write p portions) = some (place, pieces.flatten) := by
  obtain ⟨place, pieces, rfl, hwritten, -⟩ := write_eq_ok (h t (.refl t)).1
  have hput : t.putOf (.write p (pieces.map .ok)) = some (place, pieces.flatten) := by
    rw [← (h _ hwritten.grows).2]
    exact putOf_write hwritten.locate hwritten.encodable
  obtain ⟨_, _, old, hop, hlocate, -⟩ := of_putOf hput
  obtain ⟨rfl, -⟩ := FileOperation.write.inj hop
  exact ⟨place, pieces, old, rfl, hwritten.encodable, hlocate, hput⟩

/-- Where only one text is put at a place, it is the last one there. -/
theorem lastText_eq_some {puts : List (Option (List Text × Text))} {q : List Text} {text : Text}
    (hput : some (q, text) ∈ puts) (hsole : ∀ other, some (q, other) ∈ puts → other = text) :
    lastText puts q = some text := by
  cases hlast : lastText puts q with
  | none =>
      have hnone := List.findSome?_eq_none_iff.mp hlast _ (List.mem_reverse.mpr hput)
      rw [textAt_eq_some.mpr rfl] at hnone
      cases hnone
  | some other =>
      obtain ⟨put, hmem, hother⟩ := List.exists_of_findSome?_eq_some hlast
      rw [textAt_eq_some.mp hother, List.mem_reverse] at hmem
      rw [hsole other hmem]

/-! ## Operations in some order -/

def putsOf (t : FileTree) (ops : List FileOperation) : List (Option (List Text × Text)) :=
  ops.map t.putOf

theorem sparesRoot_putsOf (t : FileTree) (ops : List FileOperation) : SparesRoot (t.putsOf ops) := by
  intro text hmem
  obtain ⟨op, -, hput⟩ := List.mem_map.mp hmem
  obtain ⟨file, portions, old, -, hlocate, -⟩ := of_putOf hput
  have hfile := entry_of_file hlocate
  rw [entry_nil] at hfile
  cases hfile

/-- Operations that have succeeded one after another, perhaps with others in between. -/
structure Leaves (t : FileTree) (disk : Disk) (ops : List FileOperation) (t' : FileTree) : Prop where
  grows : t.Grows t'
  repeats : ∀ op ∈ ops, t'.Repeats disk op
  /-- What stands at a place: the last text put there, or what was there, if it is no new
  directory. -/
  entry : ∀ q, t'.entry? q = FileTree.entry? (t.overwriteAll (t'.putsOf ops)) q
    ∨ (FileTree.entry? (t.overwriteAll (t'.putsOf ops)) q = none ∧ t'.entry? q = some .directory)

theorem Leaves.refl (t : FileTree) (disk : Disk) : Leaves t disk [] t :=
  ⟨Grows.refl t, List.forall_mem_nil _, fun _ => Or.inl rfl⟩

theorem Repeats.putsOf_eq {ops : List FileOperation} (h : ∀ op ∈ ops, t.Repeats disk op)
    (hgrows : t.Grows t') : t'.putsOf ops = t.putsOf ops :=
  List.map_congr_left fun op hop => (h op hop t' hgrows).2

/-- One more operation that succeeds. -/
theorem Leaves.perform {ops : List FileOperation} (h : Leaves t disk ops t') {op : FileOperation}
    (hop : t'.perform disk op = (.ok (), t'')) : Leaves t disk (ops ++ [op]) t'' := by
  have hgrows' := t'.perform_grows op disk
  rw [hop] at hgrows'
  obtain ⟨hrepeats, heffect⟩ := repeats_of_perform hop
  have hall : ∀ op' ∈ ops ++ [op], t''.Repeats disk op' := by
    intro op' hmem
    rcases List.mem_append.mp hmem with hmem | hmem
    · exact (h.repeats op' hmem).of_grows hgrows'
    · rw [List.mem_singleton.mp hmem]
      exact hrepeats
  refine ⟨h.grows.trans hgrows', hall, ?_⟩
  have hputs : t''.putsOf (ops ++ [op]) = t'.putsOf ops ++ [t''.putOf op] := by
    rw [putsOf, List.map_append]
    exact congrArg (· ++ _) (Repeats.putsOf_eq h.repeats hgrows')
  have hlast : t.overwriteAll (t''.putsOf (ops ++ [op]))
      = (t.overwriteAll (t'.putsOf ops)).overwrite (t''.putOf op) := by
    rw [hputs, overwriteAll, List.foldl_append]
    rfl
  intro q
  rw [hlast]
  rcases heffect with ⟨dir, rfl, hroom⟩ | ⟨place, text, hput, hfree, rfl⟩
  · show FileTree.entry? t'' q = FileTree.entry? (t.overwriteAll (t'.putsOf ops)) q ∨ _
    rcases hroom.entry q with hsame | ⟨hnone, hmade⟩
    · rw [hsame]
      exact h.entry q
    · rcases h.entry q with hq | ⟨-, hq⟩
      · exact Or.inr ⟨hq.symm.trans hnone, hmade⟩
      · rw [hq] at hnone
        cases hnone
  · rw [hput]
    show FileTree.entry? (t'.insert place (.file text)) q
      = FileTree.entry? ((t.overwriteAll (t'.putsOf ops)).insert place (.file text)) q ∨ _
    by_cases hq : q = place
    · have hne := ne_nil_of_entry hfree
      left
      rw [hq, entry_insert_self _ hne, entry_insert_self _ hne]
    · rw [entry_insert_of_ne _ hq]
      show _ ∨ FileTree.entry? ((t.overwriteAll (t'.putsOf ops)).insert place (.file text)) q
        = none ∧ _
      rw [entry_insert_of_ne _ hq]
      exact h.entry q

/-- The text that has been put at a place last stands there. -/
theorem Leaves.entry_of_lastText {ops : List FileOperation} (h : Leaves t disk ops t')
    {q : List Text} {text : Text} (hlast : lastText (t'.putsOf ops) q = some text) :
    t'.entry? q = some (.file text) := by
  have hentry := h.entry q
  rw [entry_overwriteAll (sparesRoot_putsOf _ _), hlast] at hentry
  rcases hentry with hq | ⟨hq, -⟩
  · exact hq
  · cases hq

end TaskContract.FileTree
