import TaskContract.Proofs.Chat.Replies
import TaskContract.Proofs.Pipeline.Rerun

/-!
# What is loaded after a successful run

The schema of an artifact is kept under the base name of the artifact, which other artifacts may
share. Schemas that have the same files are stored one after another, and each is told to be complete
before the next one is begun. So after a successful run, what is loaded for an artifact is what came
with the deduction for its base name that was told to be complete last, in whichever order the
replies came.
-/

namespace TaskContract

variable {σ : Type}

/-! ## Deductions in the order of their completion -/

/-- The schema that has been deduced for an artifact of a task. -/
structure Deduction where
  work : TaskWork
  index : Nat
  artifact : ArtifactWrite
  schema : DeducedSchema

namespace Deduction

def progress (total : Nat) (d : Deduction) : ArtifactProgress :=
  d.work.progress total d.index d.artifact

def isFor (artifact : Text) (d : Deduction) : Bool :=
  keptBase d.artifact.fileName = keptBase artifact

end Deduction

/-- The last of the deductions whose schemas are kept under the name of the artifact. -/
def lastFor (artifact : Text) (ds : List Deduction) : Option Deduction :=
  (ds.filter (Deduction.isFor artifact)).getLast?

theorem lastFor_append (artifact : Text) (front back : List Deduction) :
    lastFor artifact (front ++ back) = (lastFor artifact back).or (lastFor artifact front) := by
  rw [lastFor, List.filter_append, List.getLast?_append]
  rfl

theorem isFor_of_lastFor {artifact : Text} {ds : List Deduction} {d : Deduction}
    (h : lastFor artifact ds = some d) :
    d ∈ ds ∧ keptBase d.artifact.fileName = keptBase artifact := by
  obtain ⟨hmem, hfor⟩ := List.mem_filter.mp (List.mem_of_getLast? h)
  exact ⟨hmem, of_decide_eq_true hfor⟩

theorem exists_lastFor {artifact : Text} {ds : List Deduction} {d : Deduction} (hd : d ∈ ds)
    (hfor : keptBase d.artifact.fileName = keptBase artifact) : ∃ e, lastFor artifact ds = some e :=
  ⟨_, List.getLast?_eq_some_getLast
    (List.ne_nil_of_mem (List.mem_filter.mpr ⟨hd, decide_eq_true hfor⟩))⟩

def Act.ended? (act : Act) : Option ArtifactProgress :=
  act.event?.bind Event.ended?

theorem Act.isConcluding_of_ended {act : Act} (h : act.ended?.isSome = true) :
    act.isConcluding = true := by
  cases act with
  | asked r reply => cases h
  | filed op result => rfl
  | told e =>
      cases e with
      | artifactComplete p => rfl
      | _ => cases h

theorem Act.isConcluding_of_putAt {t : FileTree} {q : List Text} {act : Act}
    (h : (act.putAt t q).isSome = true) : act.isConcluding = true := by
  cases act with
  | told e | asked r reply => cases h
  | filed op result => rfl

namespace DoneTask

def deduction? (c : Conditions σ) (x : DoneTask) (i : Nat) : Option Deduction := do
  let a ← (x.answers.artifacts c)[i]?
  let reply ← x.answers.schemas[i]?
  let d ← (reply.schema a.fileName).toOption
  return ⟨x.task, i, a, d⟩

/-- The deductions for the task, in the order in which they are told to be complete. -/
def deductions (c : Conditions σ) (x : DoneTask) : List Deduction :=
  x.history.filterMap fun y => y.2.ended?.bind fun _ => x.deduction? c y.1

structure Makes (c : Conditions σ) (l : PipelineLocation) (total : Nat) (x : DoneTask)
    (d : Deduction) (reply : Chat.Reply) (ops : List FileOperation) : Prop where
  work : d.work = x.task
  artifact : (x.answers.artifacts c)[d.index]? = some d.artifact
  replied : x.answers.schemas[d.index]? = some reply
  schema : reply.schema d.artifact.fileName = .ok d.schema
  stores : schemaWork c.now l d.artifact.fileName d.schema = .ok ops
  acts : actsOf d.index x.history = askedFor c x.task total d.index d.artifact reply
    ++ (filedAll ops ++ [Act.told (.artifactComplete (d.progress total))])

section

variable {c : Conditions σ} {l : PipelineLocation} {known : List Text} {total tasks index : Nat}
  {x : DoneTask} {d : Deduction} {reply : Chat.Reply} {ops : List FileOperation}

theorem IsDone.makes (h : x.IsDone c l total) {i : Nat} {a : ArtifactWrite}
    (ha : (x.answers.artifacts c)[i]? = some a) :
    ∃ d reply ops, x.deduction? c i = some d ∧ d.index = i ∧ d.artifact = a
      ∧ x.Makes c l total d reply ops := by
  obtain ⟨reply, hreply, hcourse⟩ := h.course ha
  generalize hacts : actsOf i x.history = acts at hcourse
  cases hcourse with
  | @stored d ops schema work =>
      refine ⟨⟨x.task, i, a, d⟩, reply, ops, ?_, rfl, rfl, rfl, ha, hreply, schema, work, hacts⟩
      rw [deduction?, ha, hreply]
      show ((reply.schema a.fileName).toOption.bind _) = _
      rw [schema]
      rfl

theorem IsDone.of_deduction (h : x.IsDone c l total) {i : Nat} (hd : x.deduction? c i = some d) :
    d.index = i ∧ ∃ reply ops, x.Makes c l total d reply ops := by
  cases ha : (x.answers.artifacts c)[i]? with
  | none =>
      rw [deduction?, ha] at hd
      cases hd
  | some a =>
      obtain ⟨d', reply, ops, hd', hindex, -, hmakes⟩ := h.makes ha
      obtain rfl := Option.some.inj (hd.symm.trans hd')
      exact ⟨hindex, reply, ops, hmakes⟩

theorem Makes.opsOf (h : x.Makes c l total d reply ops) :
    opsOf (actsOf d.index x.history) = ops := by
  rw [h.acts, opsOf_append, opsOf_append, opsOf_filedAll]
  exact List.append_nil ops

theorem Makes.mem_history (h : x.Makes c l total d reply ops) :
    (d.index, .told (.artifactComplete (d.progress total))) ∈ x.history := by
  have hmem : .told (.artifactComplete (d.progress total)) ∈ actsOf d.index x.history := by
    rw [h.acts]
    exact List.mem_append_right _ (List.mem_append_right _ (List.mem_singleton_self _))
  obtain ⟨y, hy, hact⟩ := List.mem_map.mp hmem
  obtain ⟨hhistory, hindex⟩ := List.mem_filter.mp hy
  rwa [← of_decide_eq_true hindex, ← hact]

theorem Makes.eq_of_ended (h : x.Makes c l total d reply ops) {act : Act}
    (hact : act ∈ actsOf d.index x.history) {p : ArtifactProgress} (hp : act.ended? = some p) :
    p = d.progress total := by
  rw [h.acts] at hact
  rcases List.mem_append.mp hact with hact | hact
  · rcases List.mem_cons.mp hact with rfl | hact
    · cases hp
    · rw [List.mem_singleton.mp hact] at hp
      cases hp
  · rcases List.mem_append.mp hact with hact | hact
    · obtain ⟨op, -, rfl⟩ := List.mem_map.mp hact
      cases hp
    · rw [List.mem_singleton.mp hact] at hp
      exact (Option.some.inj hp).symm

/-- The deductions are in the order in which they are told to be complete. -/
theorem IsDone.map_deductions (h : x.IsDone c l total) :
    (x.deductions c).map (Deduction.progress total)
      = (x.history.map Prod.snd).filterMap Act.ended? := by
  rw [deductions, List.map_filterMap, List.filterMap_map]
  refine List.filterMap_congr fun y hy => ?_
  show _ = y.2.ended?
  cases hp : y.2.ended? with
  | none => rfl
  | some p =>
      obtain ⟨a, ha⟩ := h.exists_artifact hy
      obtain ⟨d, reply, ops, hd, hindex, -, hmakes⟩ := h.makes ha
      show (x.deduction? c y.1).map _ = _
      rw [hd, hmakes.eq_of_ended (hindex ▸ mem_actsOf hy) hp]
      rfl

theorem IsDone.exists_deduction (h : x.IsDone c l total) {a : ArtifactWrite}
    (ha : a ∈ x.answers.artifacts c) : ∃ d ∈ x.deductions c, d.artifact = a := by
  obtain ⟨i, hi⟩ := List.getElem?_of_mem ha
  obtain ⟨d, reply, ops, hd, rfl, rfl, hmakes⟩ := h.makes hi
  exact ⟨d, List.mem_filterMap.mpr ⟨_, hmakes.mem_history, hd⟩, rfl⟩

theorem IsDone.makes_of_mem (h : x.IsDone c l total) (hd : d ∈ x.deductions c) :
    ∃ reply ops, x.Makes c l total d reply ops := by
  obtain ⟨y, -, hy⟩ := List.mem_filterMap.mp hd
  obtain ⟨_, -, hy⟩ := Option.bind_eq_some_iff.mp hy
  exact (h.of_deduction hy).2

end

end DoneTask

/-! ## The files of a deduction -/

def DeducedSchema.stored (now : Timestamp) (d : DeducedSchema) : List (Text × Json) :=
  [(Text.ofString ".schema.json", d.schema), (Text.ofString ".sample.json", d.sample),
    (Text.ofString ".meta.json", SchemaFiles.origin now d.toJson)]

theorem DeducedSchema.stored_endings (now : Timestamp) (d : DeducedSchema) :
    (d.stored now).map Prod.fst = endings :=
  rfl

theorem DeducedSchema.ending_of_mem {now : Timestamp} {d : DeducedSchema} {x : Text × Json}
    (h : x ∈ d.stored now) : x.1 ∈ endings :=
  (List.mem_map_of_mem h : x.1 ∈ (d.stored now).map Prod.fst)

def DeducedSchema.fileText (now : Timestamp) (e : Text) (d : DeducedSchema) : Text :=
  ((d.stored now).lookup e).elim [] fun v => v.filePieces.flatten

theorem DeducedSchema.fileText_of_mem {now : Timestamp} {d : DeducedSchema} {x : Text × Json}
    (h : x ∈ d.stored now) : d.fileText now x.1 = x.2.filePieces.flatten := by
  have hall : ∀ x ∈ d.stored now, d.fileText now x.1 = x.2.filePieces.flatten := by
    rw [stored, List.forall_mem_cons, List.forall_mem_cons, List.forall_mem_singleton]
    exact ⟨rfl, rfl, rfl⟩
  exact hall x h

/-- The files of an artifact of this name, in a tree that has a directory for them. -/
structure HasFiles (l : PipelineLocation) (artifact : Text) (t : FileTree) (place : List Text) :
    Prop where
  room : t.locate (l.configDir / "schemas") = .ok (.directory place)
  files : ∀ e ∈ endings, ∃ old,
    t.locate ((l.configDir / "schemas").child ((Path.ofText artifact).stem ++ e))
      = .ok (.file (place ++ [keptBase artifact ++ e]) old)

section

variable {c : Conditions σ} {l : PipelineLocation} {artifact : Text} {d : DeducedSchema}
  {t : FileTree} {place : List Text} {ops : List FileOperation} {disk : Disk}

theorem schemaWork_ok {now : Timestamp} (h : schemaWork now l artifact d = .ok ops) :
    SchemaFiles.fault? d.toJson = none
      ∧ ops = .makeRoom (l.configDir / "schemas") :: (d.stored now).map fun x =>
        .write ((l.configDir / "schemas").child ((Path.ofText artifact).stem ++ x.1))
          x.2.filePortions := by
  rw [schemaWork, parent_schemas, StoreData.work] at h
  split at h
  · cases h
  · rename_i hfault
    obtain rfl := Except.ok.inj h
    refine ⟨hfault, ?_⟩
    rw [SchemaFiles.ofJson, SchemaFiles.storeData, SchemaPaths.ofArtifact_eq]
    rfl

/-- One of the files that can be stored again, and what is put into it. -/
theorem file_of_repeats (hroom : t.locate (l.configDir / "schemas") = .ok (.directory place))
    {e : Text} (he : e ∈ endings) {v : Json}
    (h : t.Repeats disk (.write ((l.configDir / "schemas").child ((Path.ofText artifact).stem ++ e))
      v.filePortions)) :
    (v.integersFit = true ∧ v.isScalar = true)
      ∧ (∃ old, t.locate ((l.configDir / "schemas").child ((Path.ofText artifact).stem ++ e))
        = .ok (.file (place ++ [keptBase artifact ++ e]) old))
      ∧ t.putOf (.write ((l.configDir / "schemas").child ((Path.ofText artifact).stem ++ e))
        v.filePortions) = some (place ++ [keptBase artifact ++ e], v.filePieces.flatten) := by
  obtain ⟨q, pieces, old, hpieces, hencodable, hlocate, hput⟩ := h.write
  obtain ⟨hfits, rfl⟩ := Json.filePieces_of_portions hpieces
  have hq : q = place ++ [keptBase artifact ++ e] := by
    rw [schemas_eq_child] at hroom hlocate
    obtain ⟨dir, hdir, -, hfound⟩ := FileTree.directory_of_child isName_schemas
      (isName_ending (Path.noSlash_stem artifact) he) hlocate
    obtain rfl := FileTree.Found.directory.inj (Except.ok.inj (hdir.symm.trans hroom))
    rw [← (FileTree.found_eq_file hfound.symm).1, kept_ending he]
    rfl
  subst hq
  exact ⟨⟨hfits, Json.filePieces_encodable_iff.mp hencodable⟩, ⟨old, hlocate⟩, hput⟩

/-- What can be stored again is found, and what is put into each file is what the deduction has. -/
theorem schema_puts (hwork : schemaWork c.now l artifact d = .ok ops)
    (hrepeats : ∀ op ∈ ops, t.Repeats disk op) :
    ∃ place, HasFiles l artifact t place
      ∧ (∀ x ∈ d.stored c.now, x.2.integersFit = true ∧ x.2.isScalar = true)
      ∧ ∀ e ∈ endings, FileTree.lastText (t.putsOf ops) (place ++ [keptBase artifact ++ e])
        = some (d.fileText c.now e) := by
  obtain ⟨-, rfl⟩ := schemaWork_ok hwork
  obtain ⟨hmake, hwrites⟩ := List.forall_mem_cons.mp hrepeats
  obtain ⟨place, hroom⟩ := hmake.makeRoom
  have hfile := fun x (hx : x ∈ d.stored c.now) => file_of_repeats hroom
    (DeducedSchema.ending_of_mem hx) (hwrites _ (List.mem_map_of_mem hx))
  refine ⟨place, ⟨hroom, ?files⟩, fun x hx => (hfile x hx).1, ?puts⟩
  case files =>
    intro e he
    rw [← DeducedSchema.stored_endings c.now d] at he
    obtain ⟨x, hx, rfl⟩ := List.mem_map.mp he
    exact (hfile x hx).2.1
  case puts =>
    intro e he
    rw [← DeducedSchema.stored_endings c.now d] at he
    obtain ⟨x, hx, rfl⟩ := List.mem_map.mp he
    rw [DeducedSchema.fileText_of_mem hx]
    refine FileTree.lastText_eq_some (List.mem_cons_of_mem _ ?_) fun other hother => ?_
    · exact (hfile x hx).2.2 ▸ List.mem_map_of_mem (List.mem_map_of_mem hx)
    · -- the other files have other endings
      obtain ⟨op, hop, hput⟩ := List.mem_map.mp hother
      rcases List.mem_cons.mp hop with rfl | hop
      · cases hput
      · obtain ⟨y, hy, rfl⟩ := List.mem_map.mp hop
        rw [(hfile y hy).2.2] at hput
        obtain ⟨hplace, rfl⟩ := Prod.mk.inj (Option.some.inj hput)
        have hname := List.singleton_inj.mp (List.append_cancel_left hplace)
        have hending := (ending_unique (DeducedSchema.ending_of_mem hy)
          (DeducedSchema.ending_of_mem hx) hname).1
        rw [← DeducedSchema.fileText_of_mem hy, hending, DeducedSchema.fileText_of_mem hx]

end

/-! ## What is put last -/

/-- No contract is put at the place of a schema. -/
theorem OfContract.ne_place {c : Conditions σ} {l : PipelineLocation} {t : FileTree}
    {task : TaskWork} {op : FileOperation} (hop : OfContract c l task op) {place : List Text}
    {base e : Text} (he : e ∈ endings) {text : Text} :
    t.putOf op ≠ some (place ++ [base ++ e], text) := by
  intro hput
  obtain ⟨file, portions, old, rfl, hlocate, -⟩ := FileTree.of_putOf hput
  rcases hop with hop | hop
  · cases hop
  · obtain ⟨rfl, -⟩ := FileOperation.write.inj hop
    obtain ⟨front, base', hbase, hparts⟩ := ContractFile.path_parts l.configDir task.task
    obtain ⟨d, hplace⟩ := FileTree.place_last hparts
      (Path.isName_append hbase (by decide) (by decide)) (Or.inr ⟨old, hlocate⟩)
    rw [FileName.kept_append base' (by decide)] at hplace
    have hlast := List.singleton_inj.mp (List.append_inj' hplace rfl).2
    have hending : ∀ e ∈ endings, ¬e <:+ Text.ofString ".analysis.json"
        ∧ ¬Text.ofString ".analysis.json" <:+ e := by decide
    -- of two endings of one name, one is the end of the other
    rcases List.suffix_or_suffix_of_suffix (List.suffix_append base e)
      (hlast ▸ List.suffix_append (FileName.kept base') _) with hsuffix | hsuffix
    · exact (hending e he).1 hsuffix
    · exact (hending e he).2 hsuffix

namespace DoneTask

/-- Artifacts of the task that have the files of this one have its base name, letter by letter. It
is the base name, not the files, that has a lock. -/
def SpellsAlike (c : Conditions σ) (artifact : Text) (x : DoneTask) : Prop :=
  ∀ a ∈ x.answers.artifacts c, ∀ b ∈ x.answers.artifacts c,
    keptBase a.fileName = keptBase artifact → keptBase b.fileName = keptBase artifact →
    (Path.ofText a.fileName).stem = (Path.ofText b.fileName).stem

section

variable {c : Conditions σ} {l : PipelineLocation} {known : List Text} {total tasks index : Nat}
  {x : DoneTask} {t : FileTree} {place : List Text} {artifact e : Text}

/-- Where the last deduction for an artifact is told to be complete, no other one follows. -/
theorem split_of_lastFor {d : Deduction} (h : lastFor artifact (x.deductions c) = some d) :
    ∃ front y back, x.history = front ++ y :: back ∧ y.2.ended?.isSome = true
      ∧ x.deduction? c y.1 = some d
      ∧ ∀ z ∈ back, z.2.ended?.isSome = true → ∀ d', x.deduction? c z.1 = some d' →
        d'.isFor artifact = false := by
  rw [lastFor, deductions, List.filter_filterMap, List.getLast?_filterMap,
    List.findSome?_eq_some_iff] at h
  obtain ⟨after, y, before, hhistory, hy, hnone⟩ := h
  obtain ⟨hy, -⟩ := Option.filter_eq_some_iff.mp hy
  obtain ⟨p, hp, hd⟩ := Option.bind_eq_some_iff.mp hy
  refine ⟨before.reverse, y, after.reverse, ?_, ?_, hd, ?_⟩
  · rw [← List.reverse_reverse x.history, hhistory, List.reverse_append, List.reverse_cons,
      List.append_assoc]
    rfl
  · rw [hp]
    rfl
  · intro z hz hended d' hd'
    obtain ⟨q, hq⟩ := Option.isSome_iff_exists.mp hended
    have hfilter := hnone z (List.mem_reverse.mp hz)
    rw [hq, Option.bind_some, hd', Option.filter_some] at hfilter
    split at hfilter
    · cases hfilter
    · rename_i hother
      exact Bool.eq_false_of_not_eq_true hother

/-- The last deduction for an artifact follows all others whose schemas have the same files. -/
theorem IsDone.last_of_lastFor (h : x.IsDone c l total) {d : Deduction}
    (hspells : x.SpellsAlike c artifact) (hlast : lastFor artifact (x.deductions c) = some d)
    {j : Nat} {b : ArtifactWrite} (hb : (x.answers.artifacts c)[j]? = some b)
    (hbase : keptBase b.fileName = keptBase artifact) (hne : j ≠ d.index) :
    Precedes x.history j d.index := by
  obtain ⟨hmem, hfor⟩ := isFor_of_lastFor hlast
  obtain ⟨_, _, hmakes⟩ := h.makes_of_mem hmem
  obtain ⟨vs, hgathered⟩ := h.gathered
  have hname : ∀ {k : Nat} {a : ArtifactWrite}, (x.answers.artifacts c)[k]? = some a →
      artifactAt (x.answers.artifacts c) k = a.fileName := by
    intro k a ha
    rw [artifactAt, ha]
    rfl
  have hstem : (Path.ofText (artifactAt (x.answers.artifacts c) j)).stem
      = (Path.ofText (artifactAt (x.answers.artifacts c) d.index)).stem := by
    rw [hname hb, hname hmakes.artifact]
    exact hspells b (List.mem_of_getElem? hb) _ (List.mem_of_getElem? hmakes.artifact) hbase hfor
  rcases hgathered.either j d.index hne hstem with hfirst | hafter
  · exact hfirst
  · -- otherwise this one would be the last
    obtain ⟨d', _, _, hd', rfl, rfl, hmakes'⟩ := h.makes hb
    obtain ⟨front, y, back, hhistory, hended, hd, hnone⟩ := split_of_lastFor hlast
    have hindex := (h.of_deduction hd).1
    have hcomplete := hmakes'.mem_history
    rw [hhistory] at hcomplete
    have hearlier : (d'.index, .told (.artifactComplete (d'.progress total))) ∈ front := by
      rcases List.mem_append.mp hcomplete with hfront | hrest
      · exact hfront
      · rcases List.mem_cons.mp hrest with hsame | hback
        · exact absurd ((congrArg Prod.fst hsame).trans hindex.symm) hne
        · have hother := hnone _ hback rfl d' hd'
          rw [Deduction.isFor, decide_eq_true hbase] at hother
          cases hother
    rw [Precedes, hhistory, List.pairwise_append] at hafter
    have hopen := hafter.2.2 _ hearlier y List.mem_cons_self rfl rfl hindex.symm
    rw [Act.isConcluding_of_ended hended] at hopen
    cases hopen

theorem IsDone.base_of_put (h : x.IsDone c l total)
    (hroom : t.locate (l.configDir / "schemas") = .ok (.directory place)) (he : e ∈ endings)
    {i : Nat} {act : Act} (hact : act ∈ actsOf i x.history)
    (hput : (act.putAt t (place ++ [keptBase artifact ++ e])).isSome = true) :
    ∃ a, (x.answers.artifacts c)[i]? = some a ∧ keptBase a.fileName = keptBase artifact := by
  obtain ⟨a, ha, place', hplace, e', he', heq⟩ := h.place_of_put hact hput
  obtain rfl := FileTree.Found.directory.inj (Except.ok.inj (hroom.symm.trans hplace))
  have hname := List.singleton_inj.mp (List.append_cancel_left heq)
  exact ⟨a, ha, (ending_unique he he' hname).2.symm⟩

/-- **What is put last into a file for the schema of an artifact** is what the last deduction for
its base name stores, and nothing if there is none. -/
theorem IsDone.lastPut_history (h : x.IsDone c l total)
    (hrepeats : ∀ op ∈ TaskContract.opsOf (x.history.map Prod.snd), t.Repeats c.disk op)
    (hroom : t.locate (l.configDir / "schemas") = .ok (.directory place))
    (hspells : x.SpellsAlike c artifact) (he : e ∈ endings) :
    lastPut t (x.history.map Prod.snd) (place ++ [keptBase artifact ++ e])
      = (lastFor artifact (x.deductions c)).map fun d => d.schema.fileText c.now e := by
  cases hlast : lastFor artifact (x.deductions c) with
  | none =>
      refine lastPut_eq_none fun act hact => Option.not_isSome_iff_eq_none.mp fun hput => ?_
      obtain ⟨y, hy, rfl⟩ := List.mem_map.mp hact
      obtain ⟨a, ha, hbase⟩ := h.base_of_put hroom he (mem_actsOf hy) hput
      obtain ⟨d, hd, rfl⟩ := h.exists_deduction (List.mem_of_getElem? ha)
      obtain ⟨_, hsome⟩ := exists_lastFor hd hbase
      rw [hlast] at hsome
      cases hsome
  | some d =>
      obtain ⟨hmem, hbase⟩ := isFor_of_lastFor hlast
      obtain ⟨reply, ops, hmakes⟩ := h.makes_of_mem hmem
      refine TaskContract.lastPut_history (i := d.index) ?_ ?_
      · -- nothing is put there for another artifact afterwards
        refine List.pairwise_iff_forall_sublist.mpr fun {y z} hsub hy hput hz => ?_
        by_contra hother
        obtain ⟨b, hb, hbase'⟩ := h.base_of_put hroom he
          (mem_actsOf (hsub.subset (List.mem_cons_of_mem _ List.mem_cons_self)))
          (Option.isSome_iff_ne_none.mpr hother)
        have hopen := List.pairwise_iff_forall_sublist.mp
          (h.last_of_lastFor hspells hlast hb hbase' hz) hsub hy (Act.isConcluding_of_putAt hput) rfl
        rw [Act.isConcluding_of_putAt (Option.isSome_iff_ne_none.mpr hother)] at hopen
        cases hopen
      · have hops : ∀ op ∈ ops, t.Repeats c.disk op := by
          intro op hop
          rw [← hmakes.opsOf] at hop
          exact hrepeats op (List.filterMap_subset _ (fun _ => mem_of_mem_actsOf) hop)
        obtain ⟨place', hfiles, -, htexts⟩ := schema_puts hmakes.stores hops
        obtain rfl := FileTree.Found.directory.inj (Except.ok.inj (hroom.symm.trans hfiles.room))
        have htext := htexts e he
        rw [hbase] at htext
        rw [lastPut, hmakes.opsOf, htext]

theorem IsDone.lastPut_begun (he : e ∈ endings) :
    lastPut t (x.begun c l known) (place ++ [keptBase artifact ++ e]) = none := by
  rw [lastPut, begun, opsOf_append, opsOf_filedAll, opsOf_asksOf, List.append_nil]
  refine List.findSome?_eq_none_iff.mpr fun put hput => ?_
  obtain ⟨op, hop, rfl⟩ := List.mem_map.mp (List.mem_reverse.mp hput)
  have hcontract : OfContract c l x.task op := by
    rcases List.mem_cons.mp hop with rfl | hop
    · exact Or.inl rfl
    · exact Or.inr (List.mem_singleton.mp hop)
  rw [Option.eq_none_iff_forall_ne_some]
  intro text htext
  exact hcontract.ne_place he (FileTree.textAt_eq_some.mp htext)

theorem lastPut_of_courses (known : List Text) (tasks index : Nat) {xs : List DoneTask}
    (h : ∀ x ∈ xs, x.IsDone c l total)
    (hrepeats : ∀ op ∈ TaskContract.opsOf (courses c l known tasks index xs), t.Repeats c.disk op)
    (hroom : t.locate (l.configDir / "schemas") = .ok (.directory place))
    (hspells : ∀ x ∈ xs, x.SpellsAlike c artifact) (he : e ∈ endings) :
    lastPut t (courses c l known tasks index xs) (place ++ [keptBase artifact ++ e])
      = (lastFor artifact (xs.flatMap (deductions c))).map fun d => d.schema.fileText c.now e := by
  induction xs generalizing index with
  | nil => rfl
  | cons x rest ih =>
      obtain ⟨hx, hrest⟩ := List.forall_mem_cons.mp h
      obtain ⟨hspell, hspells⟩ := List.forall_mem_cons.mp hspells
      have hsubset : TaskContract.opsOf (x.history.map Prod.snd)
          ⊆ TaskContract.opsOf (x.course c l known tasks index) :=
        List.filterMap_subset _ fun act hact => acts_subset_course (List.mem_append_right _ hact)
      rw [courses, opsOf_append] at hrepeats
      obtain ⟨hfirst, hothers⟩ := List.forall_mem_append.mp hrepeats
      have hhistory := hx.lastPut_history (fun op hop => hfirst op (hsubset hop)) hroom hspell he
      have hcourse : lastPut t (x.course c l known tasks index) (place ++ [keptBase artifact ++ e])
          = lastPut t (x.history.map Prod.snd) (place ++ [keptBase artifact ++ e]) := by
        show lastPut t (x.begun c l known ++ x.history.map Prod.snd ++ [Act.told _]) _ = _
        rw [lastPut_append, lastPut_append, IsDone.lastPut_begun he]
        exact Option.or_none
      rw [courses, lastPut_append, ih (index + 1) hrest hothers hspells, hcourse, hhistory,
        List.flatMap_cons, lastFor_append, Option.map_or]

end

end DoneTask

/-! ## Loading -/

/-- A schema that is accepted is the one that was checked. -/
theorem DeducedSchema.eq_of_check {d d' : DeducedSchema} {fileName : Text}
    {registry : Schema.Registry} (h : (d.check fileName registry).1 = .ok d') : d' = d := by
  unfold check at h
  split at h
  · cases h
  · cases h
  · cases h
  · split at h
    · cases h
    · exact (Except.ok.inj h).symm
    · cases h

theorem DeducedSchema.isReadable_of_ofContent {content : Json} {d : DeducedSchema}
    (hcontent : content.isReadable = true) (h : ofContent? content = some d) :
    d.schema.isReadable = true ∧ d.sample.isReadable = true := by
  simp only [ofContent?, Option.bind_eq_bind, Option.bind_eq_some_iff] at h
  obtain ⟨schema, hschema, sample, hsample, reasoning, -, h⟩ := h
  split at h
  · obtain rfl := Option.some.inj h
    exact ⟨Json.isReadable_of_get hcontent hschema, Json.isReadable_of_get hcontent hsample⟩
  · cases h

theorem readable_of_schema {reply : Chat.Reply}
    (hreadable : ∀ v, reply = .response v → v.isReadable = true) {artifact : Text}
    {d : DeducedSchema} (h : reply.schema artifact = .ok d) :
    d.schema.isReadable = true ∧ d.sample.isReadable = true := by
  cases reply with
  | response content =>
      have hcontent := hreadable content rfl
      unfold Chat.Reply.schema DeducedSchema.ofReply at h
      dsimp only at h
      split at h
      · split at h
        · rename_i d' hd'
          obtain rfl := DeducedSchema.eq_of_check h
          exact DeducedSchema.isReadable_of_ofContent hcontent hd'
        · cases h
      · cases h
  | _ => cases h

theorem DeducedSchema.isReadable_stored {now : Timestamp} {d : DeducedSchema}
    (hschema : d.schema.isReadable = true) (hsample : d.sample.isReadable = true) :
    ∀ x ∈ d.stored now, x.2.isReadable = true := by
  simp only [stored, List.forall_mem_cons]
  exact ⟨hschema, hsample, rfl, List.forall_mem_nil _⟩

theorem HasFiles.load {l : PipelineLocation} {artifact : Text} {t : FileTree} {place : List Text}
    (h : HasFiles l artifact t place) {now : Timestamp} {d : DeducedSchema}
    (hentries : ∀ e ∈ endings,
      t.entry? (place ++ [keptBase artifact ++ e]) = some (.file (d.fileText now e)))
    (hscalar : ∀ x ∈ d.stored now, x.2.isScalar = true)
    (hreadable : ∀ x ∈ d.stored now, x.2.isReadable = true) :
    StoredSchema.load t l.configDir artifact
      = .ok { schema := d.schema, sample := d.sample, origin := SchemaFiles.origin now d.toJson } := by
  have hvalue : ∀ x ∈ d.stored now, StoredSchema.readValue t
      ((l.configDir / "schemas").child ((Path.ofText artifact).stem ++ x.1)) = .ok x.2 := by
    intro x hx
    have he := DeducedSchema.ending_of_mem hx
    obtain ⟨old, hlocate⟩ := h.files x.1 he
    have hentry := hentries x.1 he
    rw [FileTree.entry_of_file hlocate, DeducedSchema.fileText_of_mem hx] at hentry
    obtain rfl := Entry.file.inj (Option.some.inj hentry)
    exact readValue_of_file (hreadable x hx) (hscalar x hx) hlocate
  simp only [DeducedSchema.stored, List.forall_mem_cons] at hvalue
  exact load_of_values hvalue.1 hvalue.2.1 hvalue.2.2.1

/-! ## Runs -/

/-- Is the name one of an artifact that a task of the run writes, under a name in its code or under
one that the run has adopted? -/
def IsWritten (work : List TaskWork) (told : List Event) (artifact : Text) : Prop :=
  (∃ t ∈ work, ∃ a ∈ t.contract.writes, a.fileName = artifact)
    ∨ ∃ e ∈ told, ∃ writes, e.adopted? = some writes ∧ artifact ∈ writes

theorem Performs.exists_reply {c : Conditions σ} {start stop : FileTree × σ} {acts : List Act}
    (h : Performs c start acts stop) {r : Chat.Request} {reply : Chat.Reply}
    (hasked : .asked r reply ∈ acts) : ∃ state, (c.client r state).1 = reply := by
  obtain ⟨front, back, rfl⟩ := List.append_of_mem hasked
  obtain ⟨middle, -, hback⟩ := h.append_inv
  cases hback with
  | asked answer _ => exact ⟨_, answer⟩

section

variable {c : Conditions σ} {l : PipelineLocation} {w w' : World σ} {s : Summary}
  {work : List TaskWork} {xs : List DoneTask}

theorem DoneTask.makes_of_mem {total : Nat} (h : ∀ x ∈ xs, x.IsDone c l total) {d : Deduction}
    (hd : d ∈ xs.flatMap (deductions c)) :
    ∃ x ∈ xs, ∃ reply ops, x.Makes c l total d reply ops := by
  obtain ⟨x, hx, hd⟩ := List.mem_flatMap.mp hd
  exact ⟨x, hx, (h x hx).makes_of_mem hd⟩

theorem DoneTask.Makes.acts_subset (s : Summary) (work : List TaskWork) {total : Nat}
    {x : DoneTask} {d : Deduction} {reply : Chat.Reply} {ops : List FileOperation}
    (h : x.Makes c l total d reply ops) (hx : x ∈ xs) :
    askedFor c x.task total d.index d.artifact reply
      ++ (filedAll ops ++ [Act.told (.artifactComplete (d.progress total))])
        ⊆ runActs c l work s xs := by
  obtain ⟨i, hcourse⟩ := course_subset_courses (c := c) (l := l)
    (Run.knownArtifacts work) work.length 0 hx
  rw [← h.acts]
  intro act hact
  refine List.mem_cons_of_mem _ (List.mem_append_left _ (hcourse (acts_subset_course ?_)))
  exact List.mem_append_right _ (mem_of_mem_actsOf hact)

theorem DoneTask.ended_courses {known : List Text} {total tasks index : Nat}
    (h : ∀ x ∈ xs, x.IsDone c l total) :
    (courses c l known tasks index xs).filterMap Act.ended?
      = (xs.flatMap (deductions c)).map (Deduction.progress total) := by
  induction xs generalizing index with
  | nil => rfl
  | cons x rest ih =>
      obtain ⟨hx, hrest⟩ := List.forall_mem_cons.mp h
      have hfiled : ∀ ops, (filedAll ops).filterMap Act.ended? = [] := fun ops =>
        List.filterMap_eq_nil_iff.mpr fun act hact => by
          obtain ⟨op, -, rfl⟩ := List.mem_map.mp hact
          rfl
      have hasked : ∀ questions, (asksOf questions).filterMap Act.ended? = [] := fun questions =>
        List.filterMap_eq_nil_iff.mpr fun act hact => by
          obtain ⟨q, -, rfl⟩ := List.mem_map.mp hact
          rfl
      have hcourse : (x.course c l known tasks index).filterMap Act.ended?
          = (x.deductions c).map (Deduction.progress total) := by
        show (x.acts c l known ++ [_]).filterMap Act.ended? = _
        rw [acts, begun, List.filterMap_append, List.filterMap_append, List.filterMap_append,
          hfiled, hasked, ← hx.map_deductions]
        exact List.append_nil _
      rw [courses, List.filterMap_append, hcourse, ih hrest, List.flatMap_cons, List.map_append]

theorem SucceededBy.ended_eq (h : SucceededBy c l w w' s work xs) :
    ((runActs c l work s xs).filterMap Act.event?).filterMap Event.ended?
      = (xs.flatMap (DoneTask.deductions c)).map (Deduction.progress (Run.artifactCount work)) := by
  rw [List.filterMap_filterMap]
  show (_ :: (DoneTask.courses c l _ _ 0 xs ++ [_])).filterMap Act.ended? = _
  rw [List.filterMap_cons_none rfl, List.filterMap_append, DoneTask.ended_courses h.tasks.done]
  exact List.append_nil _

/-- A task is told of with the names that have been adopted for its writes. -/
theorem SucceededBy.of_adopted (h : SucceededBy c l w w' s work xs) {e : Event}
    (he : e ∈ (runActs c l work s xs).filterMap Act.event?) {writes : List Text}
    (hwrites : e.adopted? = some writes) :
    ∃ x ∈ xs, writes = (x.answers.adoptedWrites c).map (·.fileName) := by
  obtain ⟨blocks, hblocks, hheadings⟩ :=
    DoneTask.blocks_of_courses h.tasks.done (Run.knownArtifacts work) work.length 0
  rw [event_runActs hblocks] at he
  rcases List.mem_cons.mp he with rfl | he
  · cases hwrites
  rcases List.mem_append.mp he with he | he
  · obtain ⟨b, hb, he⟩ := List.mem_flatMap.mp he
    rcases List.mem_cons.mp he with rfl | he
    · cases hwrites
    rcases List.mem_append.mp he with he | he
    · rw [Event.adopted_of_ofArtifact (b.tells.only e he)] at hwrites
      cases hwrites
    · rw [List.mem_singleton.mp he] at hwrites
      obtain rfl := Option.some.inj hwrites
      obtain ⟨x, hx, i, hheading⟩ :=
        DoneTask.of_mem_headings (hheadings ▸ List.mem_map_of_mem hb)
      exact ⟨x, hx, congrArg Heading.resolvedWrites hheading⟩
  · rw [List.mem_singleton.mp he] at hwrites
    cases hwrites

theorem SucceededBy.exists_deduction (h : SucceededBy c l w w' s work xs) {artifact : Text}
    (hjson : isJsonArtifact artifact = true)
    (hwritten : IsWritten work ((runActs c l work s xs).filterMap Act.event?) artifact) :
    ∃ d ∈ xs.flatMap (DoneTask.deductions c), d.artifact.fileName = artifact := by
  have hdeduced : ∀ x ∈ xs, ∀ a ∈ x.task.contract.writes ++ x.answers.adoptedWrites c,
      a.fileName = artifact → ∃ d ∈ xs.flatMap (DoneTask.deductions c),
        d.artifact.fileName = artifact := by
    rintro x hx a ha rfl
    obtain ⟨d, hd, rfl⟩ := (h.tasks.done x hx).exists_deduction (List.mem_filter.mpr ⟨ha, hjson⟩)
    exact ⟨d, List.mem_flatMap.mpr ⟨x, hx, hd⟩, rfl⟩
  rcases hwritten with ⟨t, ht, a, ha, hname⟩ | ⟨e, he, writes, hwrites, hmem⟩
  · rw [← h.tasks.tasks] at ht
    obtain ⟨x, hx, rfl⟩ := List.mem_map.mp ht
    exact hdeduced x hx a (List.mem_append_left _ ha) hname
  · obtain ⟨x, hx, rfl⟩ := h.of_adopted he hwrites
    obtain ⟨a, ha, hname⟩ := List.mem_map.mp hmem
    exact hdeduced x hx a (List.mem_append_right _ ha) hname

/-- A schema that has been deduced is stored in files that are found, and can be read back. -/
theorem SucceededBy.stored_of_mem (h : SucceededBy c l w w' s work xs)
    (hclient : c.client.GivesReadable) {d : Deduction}
    (hd : d ∈ xs.flatMap (DoneTask.deductions c)) :
    ∃ place, HasFiles l d.artifact.fileName w'.files place
      ∧ ∀ x ∈ d.schema.stored c.now, x.2.isScalar = true ∧ x.2.isReadable = true := by
  obtain ⟨x, hx, reply, ops, hmakes⟩ := DoneTask.makes_of_mem h.tasks.done hd
  have hsubset := hmakes.acts_subset s work hx
  have hrepeats : ∀ op ∈ ops, w'.files.Repeats c.disk op := by
    intro op hop
    refine h.leaves.repeats op (mem_opsOf (hsubset (?_ : Act.filed op (.ok ()) ∈ _)))
    exact List.mem_append_right _ (List.mem_append_left _ (List.mem_map_of_mem hop))
  obtain ⟨place, hfiles, hscalar, -⟩ := schema_puts hmakes.stores hrepeats
  have hasked : .asked (deductionRequest c.model x.task.code d.artifact) reply
      ∈ runActs c l work s xs :=
    hsubset (List.mem_append_left _ (List.mem_cons_of_mem _ (List.mem_singleton_self _)))
  obtain ⟨state, hreply⟩ := h.succeeded.passes.performs.exists_reply hasked
  obtain ⟨hschema, hsample⟩ := readable_of_schema
    (fun v hv => hclient _ _ v (hreply.trans hv)) hmakes.schema
  have hreadable : ∀ x ∈ d.schema.stored c.now, x.2.isReadable = true :=
    DeducedSchema.isReadable_stored hschema hsample
  exact ⟨place, hfiles, fun x hx => ⟨(hscalar x hx).2, hreadable x hx⟩⟩

end

/-- **After a successful run, the schema of every JSON artifact that its tasks write is loaded.** It
is the schema that came, together with its example, with a deduction of the run for an artifact of
the same base name: of all these the one that the run has told to be complete last. No two artifacts
of a task may have the same files under base names that differ, since artifacts with different base
names are stored side by side. -/
theorem load_after_run {c : Conditions σ} (hclient : c.client.GivesReadable)
    {l : PipelineLocation} {w w' : World σ} {s : Summary}
    (h : analyzePipeline c l w = (.ok s, w')) :
    ∃ work xs told, SucceededBy c l w w' s work xs ∧ w'.events = told.reverse ++ w.events
      ∧ told.filterMap Event.ended?
        = (xs.flatMap (DoneTask.deductions c)).map (Deduction.progress (Run.artifactCount work))
      ∧ ∀ artifact, isJsonArtifact artifact = true → IsWritten work told artifact →
        (∀ x ∈ xs, x.SpellsAlike c artifact) →
        ∃ d, lastFor artifact (xs.flatMap (DoneTask.deductions c)) = some d
          ∧ StoredSchema.load w'.files l.configDir artifact
            = .ok { schema := d.schema.schema, sample := d.schema.sample,
                    origin := SchemaFiles.origin c.now d.schema.toJson } := by
  obtain ⟨work, xs, hrun⟩ := succeededBy_of_ok h
  refine ⟨work, xs, _, hrun, hrun.succeeded.passes.events, hrun.ended_eq, ?_⟩
  intro artifact hjson hwritten hspells
  have hleaves := hrun.leaves
  obtain ⟨d₀, hd₀, rfl⟩ := hrun.exists_deduction hjson hwritten
  obtain ⟨d, hlast⟩ := exists_lastFor hd₀ rfl
  refine ⟨d, hlast, ?_⟩
  obtain ⟨place, hfiles, -⟩ := hrun.stored_of_mem hclient hd₀
  obtain ⟨hmem, hbase⟩ := isFor_of_lastFor hlast
  obtain ⟨_, -, hstored⟩ := hrun.stored_of_mem hclient hmem
  refine hfiles.load (fun e he => ?_) (fun x hx => (hstored x hx).1) fun x hx => (hstored x hx).2
  -- what stands there is what has been put there last
  have hput := DoneTask.lastPut_of_courses (Run.knownArtifacts work) work.length 0 hrun.tasks.done
    (fun op hop => hleaves.repeats op (opsOf_runActs ▸ hop)) hfiles.room hspells he
  rw [hlast, lastPut, ← opsOf_runActs (s := s)] at hput
  exact hleaves.entry_of_lastText hput

/-! ## Two artifacts with one base name -/

theorem marking_givesReadable : markingConditions.client.GivesReadable := by
  intro r n v h
  obtain rfl := Chat.Reply.response.inj h
  rfl

/-- A schema that is deduced with the marking client has an example that tells whether it was the
first. -/
theorem sample_of_marking {r : Chat.Request} {n : Nat} {artifact : Text} {d : DeducedSchema}
    (h : (markingConditions.client r n).1.schema artifact = .ok d) :
    d.sample = .arr [.bool (n == 0)] := by
  have hcheck : (DeducedSchema.check
      ⟨.obj [], .arr [.bool (n == 0)], Text.ofString "guessed"⟩ artifact []).1 = .ok d := h
  rw [DeducedSchema.eq_of_check hcheck]

set_option maxRecDepth 100000 in
theorem sharedBase_work : ((Run.prepared flatLocation sharedBase).toOption.map fun work =>
      work.map fun t => (t.contract.writes.map ArtifactWrite.fileName,
        t.contract.unresolvedReads.length, t.contract.unresolvedWrites.length))
      = some [([Text.ofString "a/x.json", Text.ofString "b/x.json"], 0, 0)] := by
  decide +kernel

theorem sharedBase_tasks {w' : World Nat} {s : Summary} {work : List TaskWork} {xs : List DoneTask}
    (h : SucceededBy markingConditions flatLocation sharedBaseWorld w' s work xs) :
    ∃ x a₀ a₁, xs = [x] ∧ work = [x.task] ∧ x.task.contract.writes = [a₀, a₁]
      ∧ a₀.fileName = Text.ofString "a/x.json" ∧ a₁.fileName = Text.ofString "b/x.json"
      ∧ x.task.references = [] ∧ x.answers.artifacts markingConditions = [a₀, a₁] := by
  have hwork := sharedBase_work
  rw [show Run.prepared flatLocation sharedBase = .ok work from h.succeeded.prepared] at hwork
  have hmap := Option.some.inj hwork
  obtain ⟨t, rfl⟩ : ∃ t, work = [t] :=
    List.length_eq_one_iff.mp (by simpa using congrArg List.length hmap)
  simp only [List.map_cons, List.map_nil, List.cons.injEq, Prod.mk.injEq, and_true] at hmap
  obtain ⟨hnames, hreads, hwrites⟩ := hmap
  obtain ⟨a₀, a₁, hartifacts⟩ : ∃ a₀ a₁, t.contract.writes = [a₀, a₁] :=
    List.length_eq_two.mp (by simpa using congrArg List.length hnames)
  rw [hartifacts] at hnames
  simp only [List.map_cons, List.map_nil, List.cons.injEq, and_true] at hnames
  obtain ⟨hfirst, hsecond⟩ := hnames
  obtain ⟨x, rfl, rfl⟩ := List.map_eq_singleton_iff.mp h.tasks.tasks
  have hnoReads := List.length_eq_zero_iff.mp hreads
  have hnoWrites := List.length_eq_zero_iff.mp hwrites
  have hjson : ∀ a ∈ [a₀, a₁], isJsonArtifact a.fileName = true := by
    simp only [List.forall_mem_cons, hfirst, hsecond]
    exact ⟨by decide, by decide, List.forall_mem_nil _⟩
  refine ⟨x, a₀, a₁, rfl, rfl, hartifacts, hfirst, hsecond, ?_, ?_⟩
  · rw [TaskWork.references, hnoReads, hnoWrites]
    rfl
  · rw [TaskAnswers.artifacts, TaskAnswers.adoptedWrites]
    show (x.task.contract.writes ++ Run.adoptedBy _ x.task.contract.unresolvedWrites _).filter _ = _
    rw [hnoWrites, hartifacts]
    exact List.filter_eq_self.mpr hjson

/-- The first artifact has been deduced first, with a marked example. -/
theorem sharedBase_deduced {w' : World Nat} {s : Summary} {work : List TaskWork}
    {xs : List DoneTask}
    (h : SucceededBy markingConditions flatLocation sharedBaseWorld w' s work xs) :
    (∀ told, IsWritten work told (Text.ofString "a/x.json"))
      ∧ ∀ d ∈ xs.flatMap (DoneTask.deductions markingConditions),
        d.artifact.fileName = Text.ofString "a/x.json" → d.schema.sample = .arr [.bool true] := by
  obtain ⟨x, a₀, a₁, rfl, rfl, hwrites, hfirst, hsecond, hreferences, hall⟩ := sharedBase_tasks h
  constructor
  · exact fun told => Or.inl ⟨_, List.mem_singleton_self _, a₀, hwrites ▸ List.mem_cons_self, hfirst⟩
  · intro d hd hname
    obtain ⟨y, hy, reply, ops, hmakes⟩ := DoneTask.makes_of_mem h.tasks.done hd
    obtain rfl := List.mem_singleton.mp hy
    obtain ⟨hresolved, -, vs, hgathered⟩ := h.tasks.done y hy
    obtain ⟨_, hcourse, -⟩ := h.succeeded.passes.performs.told_inv.append_inv
    obtain ⟨_, hacts, -⟩ := hcourse.append_inv
    obtain ⟨_, hacts, -⟩ := hacts.told_inv.append_inv
    have hreplies := (TaskAnswers.replies_of_performs hresolved (hgathered.done vs rfl) hacts).2
    -- no request has been answered before the first one
    rw [hall, show y.answers.work.references = [] from hreferences] at hreplies
    have hartifact := hmakes.artifact
    have hreplied := hmakes.replied
    rw [hall] at hartifact
    rw [hreplies] at hreplied
    rcases hindex : d.index with _ | _ | i
    · rw [hindex] at hreplied
      have hschema := hmakes.schema
      rw [← Option.some.inj hreplied] at hschema
      exact sample_of_marking hschema
    · rw [hindex] at hartifact
      rw [← Option.some.inj hartifact, hsecond] at hname
      exact absurd hname (by decide)
    · rw [hindex] at hartifact
      cases hartifact

/-- **Not every artifact gets the schema of its own deduction.** -/
theorem load_mixes_up : ¬ ∀ (c : Conditions Nat) (l : PipelineLocation) (w w' : World Nat)
      (s : Summary) (work : List TaskWork) (xs : List DoneTask) (told : List Event),
    c.client.GivesReadable → analyzePipeline c l w = (.ok s, w') →
    SucceededBy c l w w' s work xs → w'.events = told.reverse ++ w.events →
    ∀ artifact, isJsonArtifact artifact = true → IsWritten work told artifact →
      ∃ d ∈ xs.flatMap (DoneTask.deductions c), d.artifact.fileName = artifact
        ∧ ∃ origin, StoredSchema.load w'.files l.configDir artifact
          = .ok { schema := d.schema.schema, sample := d.schema.sample, origin } := by
  intro h
  obtain ⟨hok, -, hloaded⟩ := sharedBase_succeeds
  cases hrun : analyzePipeline markingConditions flatLocation sharedBaseWorld with
  | mk r w' =>
      rw [hrun] at hok hloaded
      cases r with
      | error e => cases hok
      | ok s =>
          obtain ⟨work, xs, hsucceeded⟩ := succeededBy_of_ok hrun
          obtain ⟨hwritten, hfirst⟩ := sharedBase_deduced hsucceeded
          obtain ⟨d, hmem, hname, origin, hload⟩ := h _ _ _ _ _ _ _ _ marking_givesReadable
            hrun hsucceeded hsucceeded.succeeded.passes.events (Text.ofString "a/x.json")
            (by decide) (hwritten _)
          rw [hload] at hloaded
          have hsample : d.schema.sample.compact = Text.ofString "[false]" := Option.some.inj hloaded
          rw [hfirst d hmem hname] at hsample
          exact absurd hsample (by decide +kernel)

/-- What is loaded for the first artifact came with the last deduction for their base name. -/
theorem sharedBase_latest : markingConditions.client.GivesReadable
    ∧ ∃ (s : Summary) (w' : World Nat) (xs : List DoneTask) (d : Deduction),
      analyzePipeline markingConditions flatLocation sharedBaseWorld = (.ok s, w')
      ∧ lastFor (Text.ofString "a/x.json")
          (xs.flatMap (DoneTask.deductions markingConditions)) = some d
      ∧ StoredSchema.load w'.files flatLocation.configDir (Text.ofString "a/x.json")
        = .ok { schema := d.schema.schema, sample := d.schema.sample,
                origin := SchemaFiles.origin markingConditions.now d.schema.toJson } := by
  refine ⟨marking_givesReadable, ?_⟩
  have hok := sharedBase_succeeds.1
  cases hrun : analyzePipeline markingConditions flatLocation sharedBaseWorld with
  | mk r w' =>
      rw [hrun] at hok
      cases r with
      | error e => cases hok
      | ok s =>
          obtain ⟨work, xs, told, hsucceeded, -, -, hload⟩ :=
            load_after_run marking_givesReadable hrun
          obtain ⟨x, a₀, a₁, rfl, -, -, hfirst, hsecond, -, hall⟩ := sharedBase_tasks hsucceeded
          have hspells : ∀ y ∈ [x], y.SpellsAlike markingConditions (Text.ofString "a/x.json") := by
            rw [List.forall_mem_singleton, DoneTask.SpellsAlike, hall]
            have hstem : ∀ a ∈ [a₀, a₁], (Path.ofText a.fileName).stem = Text.ofString "x" := by
              simp only [List.forall_mem_cons, hfirst, hsecond]
              exact ⟨by decide, by decide, List.forall_mem_nil _⟩
            exact fun a ha b hb _ _ => (hstem a ha).trans (hstem b hb).symm
          obtain ⟨d, hlast, hloaded⟩ := hload (Text.ofString "a/x.json") (by decide)
            ((sharedBase_deduced hsucceeded).1 told) hspells
          exact ⟨s, w', _, d, rfl, hlast, hloaded⟩

end TaskContract
