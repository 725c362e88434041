import TaskContract.Proofs.Pipeline.Trace

/-!
# Deeds in the order of the tasks

What a run does is done task by task, and for each task its contract is stored before the client is
asked anything. Wherever a run stops, `done_up_to` says what its log holds by then: everything for
the tasks before the one that was begun last, some of it for that one, and nothing for the others.
-/

namespace TaskContract

variable {σ : Type}

/-! ## What is done for a task -/

/-- A JSON artifact that a task writes, by its contract or by a reference that it was adopted
for. -/
def TaskWork.Writes (t : TaskWork) (a : ArtifactWrite) : Prop :=
  isJsonArtifact a.fileName = true
    ∧ (a ∈ t.contract.writes ∨ ∃ r ∈ t.contract.unresolvedWrites, a.stage = r.stage)

section

variable (c : Conditions σ) (l : PipelineLocation) (known : List Text) (t : TaskWork)

def contractWrite : FileOperation :=
  .write (ContractFile.path l.configDir t.task)
    (ContractFile.stamped c.now (t.contract.toJson (some t.file.text))).filePortions

def OfContract (op : FileOperation) : Prop :=
  op = .makeRoom (l.configDir / "analysis") ∨ op = contractWrite c l t

/-- Room is made for the three files of an artifact, or one of them is written. -/
def OfSchema (name : Text) (op : FileOperation) : Prop :=
  op = .makeRoom (SchemaPaths.ofArtifact l.configDir name).schema.parent
    ∨ ∃ file ∈ (SchemaPaths.ofArtifact l.configDir name).toList, ∃ portions,
      op = .write file portions

/-- Does a deed concern a task? It stores the contract of the task, asks for one of its references,
or is for one of its artifacts: it asks for its schema or stores that. -/
inductive Concerns : Deed → Prop where
  | contract {op : FileOperation} (stores : OfContract c l t op) (whole : Bool) :
      Concerns (.filed op whole)
  | reference (r : UnresolvedReference)
      (mem : r ∈ t.contract.unresolvedReads ++ t.contract.unresolvedWrites) :
      Concerns (.asked (resolutionRequest c.model t.code r known))
  | deduction (a : ArtifactWrite) (writes : t.Writes a) :
      Concerns (.asked (deductionRequest c.model t.code a))
  | schema (a : ArtifactWrite) (writes : t.Writes a) {op : FileOperation}
      (stores : OfSchema l a.fileName op) (whole : Bool) : Concerns (.filed op whole)

/-- The schema, sample and meta files for a name have been written to their ends. -/
def StoresSchema (name : Text) (deeds : List Deed) : Prop :=
  ∀ file ∈ (SchemaPaths.ofArtifact l.configDir name).toList,
    ∃ portions, .filed (.write file portions) true ∈ deeds

def AsksAfterStoring (deeds : List Deed) : Prop :=
  ∀ front r back, deeds = front ++ Deed.asked r :: back → .filed (contractWrite c l t) true ∈ front

/-- All is done for a task: its contract has been written, and the files of each JSON artifact among
its writes and those adopted. -/
structure Done (adopted : List Text) (deeds : List Deed) : Prop where
  contract : .filed (contractWrite c l t) true ∈ deeds
  schemas : ∀ name ∈ t.contract.writes.map ArtifactWrite.fileName ++ adopted,
    isJsonArtifact name = true → StoresSchema l name deeds

end

def Deed.request? : Deed → Option Chat.Request
  | .asked r => some r
  | .filed _ _ => none

theorem subset_front {quiet later front back : List Deed} {r : Chat.Request}
    (hquiet : ∀ d ∈ quiet, d.request? = none) (h : quiet ++ later = front ++ Deed.asked r :: back) :
    quiet ⊆ front := by
  rcases List.append_eq_append_iff.mp h with ⟨between, rfl, _⟩ | ⟨between, hfront, hlater⟩
  · exact List.subset_append_left quiet between
  · cases between with
    | nil =>
        rw [List.append_nil] at hfront
        exact hfront ▸ List.Subset.refl quiet
    | cons d rest =>
        obtain ⟨rfl, _⟩ := List.cons_eq_cons.mp hlater
        have hasked := hquiet (.asked r) (hfront ▸ List.mem_append_right _ List.mem_cons_self)
        cases hasked

/-- The place of the task that an event is the start of. -/
def Event.begins? : Event → Option Nat
  | .taskStart p => some p.index
  | _ => none

theorem Event.begins_of_ofArtifact {e : Event} (h : e.ofArtifact = true) : e.begins? = none := by
  cases e with
  | taskStart => cases h
  | _ => rfl

def lastBegun? (told : List Event) : Option Nat :=
  told.reverse.findSome? Event.begins?

theorem lastBegun_append (front back : List Event) :
    lastBegun? (front ++ back) = (lastBegun? back).or (lastBegun? front) := by
  rw [lastBegun?, List.reverse_append, List.findSome?_append]
  rfl

theorem lastBegun_cons (e : Event) (told : List Event) :
    lastBegun? (e :: told) = (lastBegun? told).or e.begins? := by
  rw [← List.singleton_append, lastBegun_append]
  congr 1
  rw [lastBegun?, List.reverse_singleton, List.findSome?_singleton]

theorem lastBegun_eq_none {told : List Event} (h : ∀ e ∈ told, e.begins? = none) :
    lastBegun? told = none :=
  List.findSome?_eq_none_iff.mpr fun e he => h e (List.mem_reverse.mp he)

/-! ## One task -/

section

variable {c : Conditions σ} {l : PipelineLocation} {known : List Text} {t : TaskWork}
  {total : Nat} {acts : List Act}

theorem StoreData.work_eq_ok {data : StoreData} {dir : Path} {ops : List FileOperation}
    (h : data.work dir = .ok ops) :
    ops = .makeRoom dir :: data.files.map fun x => .write x.1 x.2 := by
  rw [work] at h
  split at h
  · cases h
  · exact (Except.ok.inj h).symm

theorem contractWork_eq {ops : List FileOperation} (h : contractWork c l t = .ok ops) :
    ops = [.makeRoom (l.configDir / "analysis"), contractWrite c l t] :=
  StoreData.work_eq_ok h

/-- What is done of operations that may fail are some of them, each to its end or not. -/
theorem Run.Files.exists_mem {fail : FileError → Trouble} {ops : List FileOperation}
    {r : Except Trouble Unit} (h : Run.Files fail ops r acts) :
    ∀ act ∈ acts, ∃ op ∈ ops, ∃ result, act = .filed op result := by
  have hall : ∀ {ops' : List FileOperation}, ops' ⊆ ops → ∀ act ∈ filedAll ops',
      ∃ op ∈ ops, ∃ result, act = .filed op result := by
    intro ops' hsubset act hact
    obtain ⟨op, hop, rfl⟩ := List.mem_map.mp hact
    exact ⟨op, hsubset hop, _, rfl⟩
  cases h with
  | all => exact hall (List.Subset.refl ops)
  | @upTo front op back split e =>
      subst split
      refine List.forall_mem_append.mpr ⟨hall (List.subset_append_left _ _), ?_⟩
      exact List.forall_mem_singleton.mpr
        ⟨op, List.mem_append_right _ List.mem_cons_self, _, rfl⟩

theorem StoresContract.exists_mem {r : Except Trouble Unit} (h : StoresContract c l t r acts) :
    ∀ act ∈ acts, ∃ op, OfContract c l t op ∧ ∃ result, act = .filed op result := by
  cases h with
  | unfit _ => exact List.forall_mem_nil _
  | files work files =>
      intro act hact
      obtain ⟨op, hop, hresult⟩ := files.exists_mem act hact
      rw [contractWork_eq work] at hop
      refine ⟨op, ?_, hresult⟩
      rcases List.mem_cons.mp hop with rfl | hop
      · exact Or.inl rfl
      · exact Or.inr (List.mem_singleton.mp hop)

theorem StoresContract.of_ok {ops : List FileOperation} (h : contractWork c l t = .ok ops) :
    StoresContract c l t (.ok ()) (filedAll ops) :=
  .files h .all

/-- What is done of a part is in the course, but that what is done last may be cut. -/
theorem IsPart.mem {α : Type} {job : Job α} {reply : Chat.Reply} (h : IsPart job reply acts)
    {act : Act} (hact : act ∈ acts) : act ∈ job.course reply
      ∨ ∃ op e, act = .filed op (.error e) ∧ .filed op (.ok ()) ∈ job.course reply := by
  rcases h with h | ⟨front, op, e, rfl, h⟩
  · exact Or.inl (h.subset hact)
  · rcases List.mem_append.mp hact with hact | hact
    · exact Or.inl (h.subset (List.mem_append_left _ hact))
    · exact Or.inr ⟨op, e, List.mem_singleton.mp hact,
        h.subset (List.mem_append_right _ (List.mem_singleton_self _))⟩

theorem schemaWork_eq {now : Timestamp} {artifact : Text} {d : DeducedSchema}
    {ops : List FileOperation} (h : schemaWork now l artifact d = .ok ops) :
    ops = .makeRoom (SchemaPaths.ofArtifact l.configDir artifact).schema.parent
      :: (SchemaFiles.ofJson now l.configDir artifact d.toJson).files.map fun x => .write x.1 x.2 :=
  StoreData.work_eq_ok h

theorem ofSchema_of_mem {now : Timestamp} {artifact : Text} {d : DeducedSchema}
    {ops : List FileOperation} (h : schemaWork now l artifact d = .ok ops) :
    ∀ op ∈ ops, OfSchema l artifact op := by
  intro op hop
  rw [schemaWork_eq h] at hop
  rcases List.mem_cons.mp hop with rfl | hop
  · exact Or.inl rfl
  · obtain ⟨x, hx, rfl⟩ := List.mem_map.mp hop
    exact Or.inr ⟨x.1, List.mem_map_of_mem hx, x.2, rfl⟩

/-- A deed in the course of an artifact. -/
theorem deed_of_course {i : Nat} {a : ArtifactWrite} {reply : Chat.Reply} {act : Act} {d : Deed}
    (hact : act ∈ (artifactJob c l t total i a).course reply) (hd : act.deed? = some d) :
    d = .asked (deductionRequest c.model t.code a)
      ∨ ∃ op, OfSchema l a.fileName op ∧ act = .filed op (.ok ()) := by
  rw [course_artifactJob] at hact
  rcases List.mem_append.mp hact with hasked | hact
  · rcases List.mem_cons.mp hasked with rfl | hasked
    · cases hd
    · obtain rfl := List.mem_singleton.mp hasked
      exact Or.inl (Option.some.inj hd).symm
  · rcases conclusion_acts c l t total i a reply with hnone | ⟨schema, ops, -, hwork, hacts⟩
    · rw [hnone] at hact
      cases hact
    · rw [hacts] at hact
      rcases List.mem_append.mp hact with hact | hact
      · obtain ⟨op, hop, rfl⟩ := List.mem_map.mp hact
        exact Or.inr ⟨op, ofSchema_of_mem hwork op hop, rfl⟩
      · obtain rfl := List.mem_singleton.mp hact
        cases hd

theorem TaskAnswers.of_mem_artifacts {b : TaskAnswers} {a : ArtifactWrite} (ha : a ∈ b.artifacts c) :
    b.work.Writes a := by
  obtain ⟨ha, hjson⟩ := List.mem_filter.mp ha
  refine ⟨hjson, ?_⟩
  rcases List.mem_append.mp ha with ha | ha
  · exact Or.inl ha
  · right
    obtain ⟨⟨r, guess⟩, hpair, hadopted⟩ := List.mem_filterMap.mp ha
    refine ⟨r, (List.of_mem_zip hpair).1, ?_⟩
    dsimp only at hadopted
    split at hadopted
    · split at hadopted
      · obtain rfl := Option.some.inj hadopted
        rfl
      · cases hadopted
    · cases hadopted

theorem concerns_of_gathered {b : TaskAnswers} {names : Nat → Text} {history : List (Nat × Act)}
    {replies : List Chat.Reply} {r : Except Trouble (List Unit)}
    (h : Gathered c (b.jobs c l total) names history replies r) :
    ∀ d ∈ (history.map Prod.snd).filterMap Act.deed?, Concerns c l known b.work d := by
  intro d hd
  obtain ⟨act, hact, hd⟩ := List.mem_filterMap.mp hd
  obtain ⟨x, hx, rfl⟩ := List.mem_map.mp hact
  obtain ⟨job, reply, hjob, hreply, hmem⟩ := h.exists_job hx
  have hpart := h.part _ _ _ hjob hreply
  obtain ⟨a, ha, rfl⟩ := getElem?_artifactJobs hjob
  have hwrites := TaskAnswers.of_mem_artifacts (List.mem_of_getElem? ha)
  rcases hpart.mem hmem with hcourse | ⟨op, e, hcut, hcourse⟩
  · rcases deed_of_course hcourse hd with rfl | ⟨op, hop, hfiled⟩
    · exact .deduction a hwrites
    · rw [hfiled] at hd
      obtain rfl := Option.some.inj hd
      exact .schema a hwrites hop _
  · rw [hcut] at hd
    obtain rfl := Option.some.inj hd
    rcases deed_of_course hcourse rfl with hasked | ⟨op', hop, hfiled⟩
    · cases hasked
    · obtain ⟨rfl, -⟩ := Act.filed.inj hfiled
      exact .schema a hwrites hop _

theorem TaskCourse.concerns {r : Except Trouble (Nat × List Text × List Text)}
    (h : TaskCourse c l known total t r acts) :
    ∀ d ∈ acts.filterMap Act.deed?, Concerns c l known t d := by
  have hcontract : ∀ {r : Except Trouble Unit} {acts : List Act}, StoresContract c l t r acts →
      ∀ d ∈ acts.filterMap Act.deed?, Concerns c l known t d := by
    intro r acts hstores d hd
    obtain ⟨act, hact, hd⟩ := List.mem_filterMap.mp hd
    obtain ⟨op, hop, result, rfl⟩ := hstores.exists_mem act hact
    obtain rfl := Option.some.inj hd
    exact .contract hop _
  cases h with
  | unstored store => exact hcontract store
  | @gathered b ops history r task resolved work gathered =>
      subst task
      rw [List.filterMap_append, List.filterMap_append]
      refine List.forall_mem_append.mpr ⟨List.forall_mem_append.mpr ⟨hcontract (.of_ok work), ?_⟩,
        concerns_of_gathered gathered⟩
      intro d hd
      obtain ⟨act, hact, hd⟩ := List.mem_filterMap.mp hd
      obtain ⟨⟨question, reply⟩, hquestion, rfl⟩ := List.mem_map.mp hact
      obtain rfl := Option.some.inj hd
      have hrequest : ∃ r ∈ b.work.contract.unresolvedReads ++ b.work.contract.unresolvedWrites,
          resolutionRequest c.model b.work.code r known = question := by
        rcases List.mem_append.mp hquestion with hmem | hmem
        · obtain ⟨r, hr, heq⟩ := List.mem_map.mp (List.of_mem_zip hmem).1
          exact ⟨r, List.mem_append_left _ hr, heq⟩
        · obtain ⟨r, hr, heq⟩ := List.mem_map.mp (List.of_mem_zip hmem).1
          exact ⟨r, List.mem_append_right _ hr, heq⟩
      obtain ⟨r, hr, rfl⟩ := hrequest
      exact .reference r hr

theorem StoresContract.quiet {r : Except Trouble Unit} (h : StoresContract c l t r acts) :
    ∀ d ∈ acts.filterMap Act.deed?, d.request? = none := by
  intro d hd
  obtain ⟨act, hact, hd⟩ := List.mem_filterMap.mp hd
  obtain ⟨op, -, result, rfl⟩ := h.exists_mem act hact
  obtain rfl := Option.some.inj hd
  rfl

theorem stored_contract {ops : List FileOperation} (h : contractWork c l t = .ok ops) :
    .filed (contractWrite c l t) true ∈ (filedAll ops).filterMap Act.deed? := by
  rw [contractWork_eq h]
  exact List.mem_cons_of_mem _ List.mem_cons_self

theorem TaskCourse.asksAfterStoring {r : Except Trouble (Nat × List Text × List Text)}
    (h : TaskCourse c l known total t r acts) :
    AsksAfterStoring c l t (acts.filterMap Act.deed?) := by
  intro front r back hsplit
  cases h with
  | unstored store =>
      have hasked := store.quiet (.asked r)
        (hsplit ▸ List.mem_append_right _ List.mem_cons_self)
      cases hasked
  | gathered _ _ work _ =>
      rw [List.append_assoc, List.filterMap_append] at hsplit
      exact subset_front (StoresContract.of_ok work).quiet hsplit (stored_contract work)

theorem storesSchema_of_completes {i : Nat} {a : ArtifactWrite} {reply : Chat.Reply} {u : Unit}
    (h : Completes c (artifactJob c l t total i a) reply u) :
    StoresSchema l a.fileName
      (((artifactJob c l t total i a).course reply).filterMap Act.deed?) := by
  obtain ⟨d, ops, -, hwork, hcourse⟩ := completes_artifactJob h
  intro file hfile
  obtain ⟨x, hx, rfl⟩ : ∃ x ∈ (SchemaFiles.ofJson c.now l.configDir a.fileName d.toJson).files,
      x.1 = file := List.mem_map.mp hfile
  have hop : .write x.1 x.2 ∈ ops := by
    rw [schemaWork_eq hwork]
    exact List.mem_cons_of_mem _ (List.mem_map_of_mem hx)
  refine ⟨x.2, List.mem_filterMap.mpr ⟨.filed (.write x.1 x.2) (.ok ()), ?_, rfl⟩⟩
  rw [hcourse]
  exact List.mem_append_right _ (List.mem_append_left _ (List.mem_map_of_mem hop))

theorem TaskCourse.done {count : Nat} {reads writes : List Text}
    (h : TaskCourse c l known total t (.ok (count, reads, writes)) acts) :
    Done c l t writes (acts.filterMap Act.deed?) := by
  obtain ⟨b, ops, history, vs, rfl, -, work, gathered, hresult, rfl⟩ := h.of_ok
  obtain ⟨-, hnames⟩ := Prod.mk.inj hresult
  obtain ⟨-, rfl⟩ := Prod.mk.inj hnames
  rw [List.filterMap_append, List.filterMap_append]
  refine ⟨List.mem_append_left _ (List.mem_append_left _ (stored_contract work)), ?_⟩
  intro name hname hjson file hfile
  rw [← List.map_append] at hname
  obtain ⟨a, ha, rfl⟩ := List.mem_map.mp hname
  have hmem : a ∈ b.artifacts c := List.mem_filter.mpr ⟨ha, hjson⟩
  obtain ⟨i, hi⟩ := List.getElem?_of_mem hmem
  have hdone := gathered.done vs rfl
  have hjob : (b.jobs c l total)[i]? = some (artifactJob c l b.work total i a) :=
    getElem?_artifactJobs_of hi
  have hlt : i < b.schemas.length := by
    rw [hdone.length]
    exact (List.getElem?_eq_some_iff.mp hjob).1
  have hreply := List.getElem?_eq_getElem hlt
  obtain ⟨u, -, hcompletes⟩ := hdone.completes hjob hreply
  obtain ⟨portions, hfiled⟩ := storesSchema_of_completes hcompletes file hfile
  rw [← hdone.course i _ _ hjob hreply] at hfiled
  obtain ⟨act, hact, hdeed⟩ := List.mem_filterMap.mp hfiled
  exact ⟨portions, List.mem_append_right _
    (List.mem_filterMap.mpr ⟨act, mem_of_mem_actsOf hact, hdeed⟩)⟩

/-- Nothing told of a task between its start and its end begins a task. -/
theorem TaskCourse.begins {r : Except Trouble (Nat × List Text × List Text)}
    (h : TaskCourse c l known total t r acts) :
    ∀ e ∈ acts.filterMap Act.event?, e.begins? = none := by
  obtain ⟨artifacts, htells, -⟩ := h.tells
  exact fun e he => Event.begins_of_ofArtifact (htells.only e he)

end

/-! ## All tasks -/

def lastPlace? (index : Nat) : List (List Deed) → Option Nat
  | [] => none
  | _ :: later => some (index + later.length)

/-- What has been told of tasks and done for them, from a place in their list on. Each task that was
begun has a part of the deeds; all but the last of them are complete, and that one may be. -/
structure InParts (c : Conditions σ) (l : PipelineLocation) (known : List Text)
    (tasks index : Nat) (work : List TaskWork) (told : List Event) (parts : List (List Deed)) :
    Prop where
  last : lastBegun? told = lastPlace? index parts
  listed : parts.length ≤ work.length
  concerns : ∀ (i : Nat) (t : TaskWork) (part : List Deed), work[i]? = some t →
    parts[i]? = some part → ∀ d ∈ part, Concerns c l known t d
  ordered : ∀ (i : Nat) (t : TaskWork) (part : List Deed), work[i]? = some t →
    parts[i]? = some part → AsksAfterStoring c l t part
  complete : ∀ (i : Nat) (t : TaskWork) (part : List Deed), work[i]? = some t →
    parts[i]? = some part → i + 1 < parts.length →
      ∃ reads writes, .taskComplete ⟨t.task, index + i, tasks⟩ reads writes ∈ told
        ∧ Done c l t writes part

namespace InParts

variable {c : Conditions σ} {l : PipelineLocation} {known : List Text} {tasks index : Nat}
  {work rest : List TaskWork} {t : TaskWork} {told later : List Event} {part : List Deed}
  {parts : List (List Deed)}

theorem nil (c : Conditions σ) (l : PipelineLocation) (known : List Text) (tasks index : Nat)
    (work : List TaskWork) : InParts c l known tasks index work [] [] where
  last := rfl
  listed := Nat.zero_le _
  concerns _ _ _ _ := nofun
  ordered _ _ _ _ := nofun
  complete _ _ _ _ := nofun

/-- One more task in front of others, which may be complete. -/
theorem cons (hwithin : ∀ e ∈ told, e.begins? = none) (hconcerns : ∀ d ∈ part, Concerns c l known t d)
    (hordered : AsksAfterStoring c l t part)
    (hdone : parts ≠ [] → ∃ reads writes,
      .taskComplete ⟨t.task, index, tasks⟩ reads writes ∈ told ∧ Done c l t writes part)
    (h : InParts c l known tasks (index + 1) rest later parts) :
    InParts c l known tasks index (t :: rest)
      (.taskStart ⟨t.task, index, tasks⟩ :: (told ++ later)) (part :: parts) where
  last := by
    rw [lastBegun_cons, lastBegun_append, lastBegun_eq_none hwithin, h.last]
    cases parts with
    | nil => rfl
    | cons next others =>
        simp only [lastPlace?, List.length_cons, Option.some_or]
        congr 1
        omega
  listed := Nat.succ_le_succ h.listed
  concerns := by
    intro i t' part' ht hpart
    cases i with
    | zero =>
        obtain rfl := Option.some.inj ht
        obtain rfl := Option.some.inj hpart
        exact hconcerns
    | succ i => exact h.concerns i t' part' ht hpart
  ordered := by
    intro i t' part' ht hpart
    cases i with
    | zero =>
        obtain rfl := Option.some.inj ht
        obtain rfl := Option.some.inj hpart
        exact hordered
    | succ i => exact h.ordered i t' part' ht hpart
  complete := by
    intro i t' part' ht hpart hlast
    cases i with
    | zero =>
        obtain rfl := Option.some.inj ht
        obtain rfl := Option.some.inj hpart
        have hmore : parts ≠ [] := List.length_pos_iff.mp (Nat.lt_of_succ_lt_succ hlast)
        obtain ⟨reads, writes, hmem, hdone⟩ := hdone hmore
        exact ⟨reads, writes, List.mem_cons_of_mem _ (List.mem_append_left _ hmem), hdone⟩
    | succ i =>
        obtain ⟨reads, writes, hmem, hdone⟩ :=
          h.complete i t' part' ht hpart (Nat.lt_of_succ_lt_succ hlast)
        rw [Nat.add_right_comm] at hmem
        exact ⟨reads, writes, List.mem_cons_of_mem _ (List.mem_append_right _ hmem), hdone⟩

/-- Events that begin no task may be told before and after. -/
theorem within {front back : List Event} (h : InParts c l known tasks index work told parts)
    (hfront : ∀ e ∈ front, e.begins? = none) (hback : ∀ e ∈ back, e.begins? = none) :
    InParts c l known tasks index work (front ++ told ++ back) parts where
  last := by
    rw [lastBegun_append, lastBegun_append, lastBegun_eq_none hfront, lastBegun_eq_none hback,
      Option.none_or, Option.or_none, h.last]
  listed := h.listed
  concerns := h.concerns
  ordered := h.ordered
  complete := by
    intro i t part ht hpart hlast
    obtain ⟨reads, writes, hmem, hdone⟩ := h.complete i t part ht hpart hlast
    exact ⟨reads, writes, List.mem_append_left _ (List.mem_append_right _ hmem), hdone⟩

end InParts

section

variable {c : Conditions σ} {l : PipelineLocation} {known : List Text} {total tasks index : Nat}
  {work : List TaskWork} {acts : List Act}

theorem inParts_single {t : TaskWork} {rest : List TaskWork} {told : List Event}
    {part : List Deed} (hwithin : ∀ e ∈ told, e.begins? = none)
    (hconcerns : ∀ d ∈ part, Concerns c l known t d) (hordered : AsksAfterStoring c l t part) :
    InParts c l known tasks index (t :: rest) (.taskStart ⟨t.task, index, tasks⟩ :: told)
      [part] := by
  have hsingle := InParts.cons hwithin hconcerns hordered (fun h => absurd rfl h)
    (.nil c l known tasks (index + 1) rest)
  rwa [List.append_nil] at hsingle

theorem TasksCourse.inParts {r : Except Trouble Nat}
    (h : TasksCourse c l known total tasks index work r acts) :
    ∃ parts, acts.filterMap Act.deed? = parts.flatten
      ∧ InParts c l known tasks index work (acts.filterMap Act.event?) parts := by
  induction h with
  | nil index => exact ⟨[], rfl, .nil c l known tasks index []⟩
  | unbegun refusal =>
      refine ⟨[[]], rfl, inParts_single (List.forall_mem_nil _) (List.forall_mem_nil _) ?_⟩
      intro front r back hnone
      cases front <;> cases hnone
  | failed course =>
      exact ⟨[_], List.flatten_singleton.symm,
        inParts_single course.begins course.concerns course.asksAfterStoring⟩
  | @unclosed index count reads writes t rest m acts course refusal =>
      refine ⟨[acts.filterMap Act.deed?], ?_, ?_⟩
      · show (acts ++ _).filterMap Act.deed? = _
        rw [List.filterMap_append, List.flatten_singleton]
        exact List.append_nil _
      · show InParts _ _ _ _ _ _ (_ :: (acts ++ _).filterMap Act.event?) _
        rw [List.filterMap_append]
        refine inParts_single ?_ course.concerns course.asksAfterStoring
        exact List.forall_mem_append.mpr ⟨course.begins, List.forall_mem_singleton.mpr rfl⟩
  | @cons index count reads writes t rest r acts later _ course _ _ ih =>
      obtain ⟨parts, hparts, hin⟩ := ih
      refine ⟨acts.filterMap Act.deed? :: parts, ?_, ?_⟩
      · show (acts ++ _ :: later).filterMap Act.deed? = _
        rw [List.filterMap_append, List.flatten_cons, ← hparts]
        rfl
      · show InParts _ _ _ _ _ _ (_ :: (acts ++ _ :: later).filterMap Act.event?) _
        rw [List.append_cons, List.filterMap_append, List.filterMap_append]
        refine .cons ?_ course.concerns course.asksAfterStoring (fun _ => ⟨reads, writes, ?_⟩) hin
        · exact List.forall_mem_append.mpr ⟨course.begins, List.forall_mem_singleton.mpr rfl⟩
        · exact ⟨List.mem_append_right _ (List.mem_singleton_self _), course.done⟩

/-! ## Whole runs -/

theorem RunCourse.inParts {r : Except Trouble Summary} (h : RunCourse c l work r acts) :
    ∃ parts, acts.filterMap Act.deed? = parts.flatten
      ∧ InParts c l (Run.knownArtifacts work) work.length 0 work (acts.filterMap Act.event?)
        parts := by
  have hstart : ∀ e ∈ [Event.started l.slug work.length (Run.artifactCount work)],
      e.begins? = none := List.forall_mem_singleton.mpr rfl
  have hclosed : ∀ {acts : List Act} {s : Summary}, (∃ parts,
      acts.filterMap Act.deed? = parts.flatten ∧ InParts c l (Run.knownArtifacts work) work.length
        0 work (acts.filterMap Act.event?) parts) → ∃ parts,
      (acts ++ [Act.told (.complete s)]).filterMap Act.deed? = parts.flatten
        ∧ InParts c l (Run.knownArtifacts work) work.length 0 work
          (.started l.slug work.length (Run.artifactCount work)
            :: (acts ++ [Act.told (.complete s)]).filterMap Act.event?) parts := by
    rintro acts s ⟨parts, hparts, hin⟩
    refine ⟨parts, ?_, ?_⟩
    · rw [List.filterMap_append, hparts]
      exact List.append_nil _
    · rw [List.filterMap_append]
      exact hin.within hstart (List.forall_mem_singleton.mpr rfl)
  cases h with
  | unbegun refusal => exact ⟨[], rfl, (InParts.nil ..).within hstart (List.forall_mem_nil _)⟩
  | failed course =>
      obtain ⟨parts, hparts, hin⟩ := course.inParts
      have hwithin := hin.within hstart (List.forall_mem_nil _)
      rw [List.append_nil] at hwithin
      exact ⟨parts, hparts, hwithin⟩
  | unclosed course _ => exact hclosed course.inParts
  | done _ course _ => exact hclosed course.inParts

theorem Trouble.begins_event (e : Trouble) : e.event.begins? = none := by
  cases e <;> rfl

/-- A run that begins a task has analyzed all tasks before. -/
theorem ReportedCourse.inParts {files : FileTree} {r : Except Trouble Summary} {last : Nat}
    (h : ReportedCourse c l files r acts)
    (hlast : lastBegun? (acts.filterMap Act.event?) = some last) :
    ∃ work parts, Run.prepared l files = .ok work ∧ acts.filterMap Act.deed? = parts.flatten
      ∧ InParts c l (Run.knownArtifacts work) work.length 0 work (acts.filterMap Act.event?)
        parts := by
  cases h with
  | @early e prepared =>
      have hnone : lastBegun? [e.event] = none :=
        lastBegun_eq_none (List.forall_mem_singleton.mpr e.begins_event)
      rw [show lastBegun? [e.event] = some last from hlast] at hnone
      cases hnone
  | succeeded prepared course =>
      obtain ⟨parts, hparts, hin⟩ := course.inParts
      exact ⟨_, parts, prepared, hparts, hin⟩
  | @failed work e acts prepared course =>
      obtain ⟨parts, hparts, hin⟩ := course.inParts
      refine ⟨work, parts, prepared, ?_, ?_⟩
      · rw [List.filterMap_append, hparts]
        exact List.append_nil _
      · rw [List.filterMap_append]
        exact hin.within (List.forall_mem_nil _) (List.forall_mem_singleton.mpr e.begins_event)

end

/-- A client that keeps what it is asked, and that knows of one artifact but of no schema. -/
def recordingConditions : Conditions (List Chat.Request) :=
  { client := fun r seen => (.response (.object [("resolvedFileName", .ofString "x.json"),
      ("confidence", .int 1)]), seen ++ [r])
    now := ⟨2026, 1, 2, 3, 4, 5, 0⟩ }

end TaskContract
