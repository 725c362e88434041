import TaskContract.Proofs.Pipeline.References

/-!
# How a run numbers its artifacts

The artifacts of a task are numbered from zero as the run comes to them, those by the contract first
and those adopted for references behind them. The total that goes with a number has been counted
before the first task was begun, over the contracts of all tasks; what is adopted later is not in it.
-/

namespace TaskContract

variable {σ : Type}

/-! ## The artifacts of a block -/

/-- The artifacts in the block of a task are numbered. Those by the contract come first, and their
numbers stay below the total of the run; those adopted for references go on from there. -/
structure Block.IsNumbered (total : Nat) (t : TaskWork) (b : Block) : Prop where
  names : b.artifacts.map ArtifactProgress.artifact
    = (t.contract.writes.map ArtifactWrite.fileName ++ b.resolvedWrites).filter isJsonArtifact
  distinct : (b.artifacts.map ArtifactProgress.index).Nodup
  total : ∀ p ∈ b.artifacts, p.total = total
  bounded : ∀ p ∈ b.artifacts,
    p.index < p.total + (b.resolvedWrites.filter isJsonArtifact).length
  adopted : ∀ p ∈ b.artifacts, p.total ≤ p.index → p.artifact ∈ b.resolvedWrites

def TaskWork.ownArtifacts (t : TaskWork) : List ArtifactWrite :=
  t.contract.writes.filter fun a => isJsonArtifact a.fileName

theorem Run.length_ownArtifacts_le {t : TaskWork} {work : List TaskWork} (ht : t ∈ work) :
    t.ownArtifacts.length ≤ artifactCount work := by
  obtain ⟨front, back, rfl⟩ := List.append_of_mem ht
  show _ ≤ ((front ++ t :: back).flatMap TaskWork.ownArtifacts).length
  rw [List.flatMap_append, List.flatMap_cons, List.length_append, List.length_append]
  omega

theorem filter_names (ws : List ArtifactWrite) :
    (ws.map ArtifactWrite.fileName).filter isJsonArtifact
      = (ws.filter fun a => isJsonArtifact a.fileName).map ArtifactWrite.fileName := by
  rw [List.filter_map]
  rfl

theorem TaskWork.mem_progressOf {t : TaskWork} {total : Nat} {artifacts : List ArtifactWrite}
    {p : ArtifactProgress} (hp : p ∈ t.progressOf total artifacts) :
    p.total = total ∧ ∃ a, artifacts[p.index]? = some a ∧ p.artifact = a.fileName := by
  obtain ⟨⟨a, i⟩, hx, rfl⟩ := List.mem_map.mp hp
  exact ⟨rfl, a, List.mem_zipIdx_iff_getElem?.mp hx, rfl⟩

theorem TaskWork.names_progressOf (t : TaskWork) (total : Nat) (artifacts : List ArtifactWrite) :
    (t.progressOf total artifacts).map ArtifactProgress.artifact
      = artifacts.map ArtifactWrite.fileName := by
  rw [progressOf, List.map_map]
  conv_rhs => rw [← List.zipIdx_map_fst 0 artifacts, List.map_map]
  rfl

section

variable {c : Conditions σ} {l : PipelineLocation} {known : List Text} {total : Nat}

theorem TaskAnswers.artifacts_eq (c : Conditions σ) (b : TaskAnswers) :
    b.artifacts c = b.work.ownArtifacts
      ++ (b.adoptedWrites c).filter fun a => isJsonArtifact a.fileName :=
  List.filter_append ..

/-- The block of a task is numbered if the total counts at least the artifacts of its contract. -/
theorem isNumbered_block {b : TaskAnswers} {block : Block}
    (hartifacts : block.artifacts = b.work.progressOf total (b.artifacts c))
    (hadopted : block.resolvedWrites = (b.adoptedWrites c).map ArtifactWrite.fileName)
    (hcount : b.work.ownArtifacts.length ≤ total) : block.IsNumbered total b.work where
  names := by
    rw [hartifacts, hadopted, b.work.names_progressOf, ← List.map_append, filter_names]
    rfl
  distinct := by
    rw [hartifacts, b.work.index_progressOf]
    exact List.nodup_range
  total := by
    intro p hp
    rw [hartifacts] at hp
    exact (TaskWork.mem_progressOf hp).1
  bounded := by
    intro p hp
    rw [hartifacts] at hp
    obtain ⟨htotal, a, ha, -⟩ := TaskWork.mem_progressOf hp
    have hlt : p.index < (b.artifacts c).length := (List.getElem?_eq_some_iff.mp ha).1
    rw [b.artifacts_eq, List.length_append] at hlt
    rw [hadopted, filter_names, List.length_map]
    omega
  adopted := by
    intro p hp hreached
    rw [hartifacts] at hp
    obtain ⟨htotal, a, ha, hname⟩ := TaskWork.mem_progressOf hp
    -- the number is past the artifacts of the contract
    have hbehind : b.work.ownArtifacts.length ≤ p.index := by omega
    rw [b.artifacts_eq, List.getElem?_append_right hbehind] at ha
    rw [hadopted, hname]
    exact List.mem_map_of_mem (List.mem_of_mem_filter (List.mem_of_getElem? ha))

theorem TasksCourse.numbered {tasks index : Nat} {work : List TaskWork} {r : Except Trouble Nat}
    {acts : List Act} (h : TasksCourse c l known total tasks index work r acts)
    (hok : r.isOk = true) (hcount : ∀ t ∈ work, t.ownArtifacts.length ≤ total) :
    ∃ blocks : List Block, acts.filterMap Act.event? = blocks.flatMap Block.events
      ∧ blocks.map Block.progress = progressFrom tasks index (work.map TaskWork.task)
      ∧ List.Forall₂ (Block.IsNumbered total) work blocks := by
  induction h with
  | nil index => exact ⟨[], rfl, rfl, .nil⟩
  | unbegun _ | failed _ | unclosed _ _ => cases hok
  | @cons index count reads writes t rest r acts later _ course _ _ ih =>
      obtain ⟨hfirst, hrest⟩ := List.forall_mem_cons.mp hcount
      have hok' : r.isOk = true := by
        cases r with
        | ok _ => rfl
        | error e => cases hok
      obtain ⟨blocks, hevents, hprogress, hnumbered⟩ := ih hok' hrest
      obtain ⟨block, b, rfl, hblock, hartifacts, -, hadopted, htold⟩ := course.block index tasks
      refine ⟨block :: blocks, ?_, ?_, .cons (isNumbered_block hartifacts hadopted hfirst) hnumbered⟩
      · show _ :: (acts ++ _ :: later).filterMap Act.event? = _
        rw [List.append_cons, List.filterMap_append, List.filterMap_append, hevents,
          List.flatMap_cons, htold]
        rfl
      · rw [List.map_cons, List.map_cons, progressFrom_cons, hblock, hprogress]

end

theorem mem_progressFrom {p : TaskProgress} {total : Nat} {tasks : List Text}
    (h : p ∈ progressFrom total 0 tasks) : p.total = total ∧ p.index < tasks.length := by
  obtain ⟨⟨task, i⟩, hx, rfl⟩ := List.mem_map.mp h
  have hfound : tasks[i]? = some task := List.mem_zipIdx_iff_getElem?.mp hx
  exact ⟨rfl, (List.getElem?_eq_some_iff.mp hfound).1⟩

/-! ## Whole runs -/

theorem begun_block (b : Block) : b.events.filterMap Event.begun? = b.artifacts := by
  rw [Block.events, List.filterMap_cons_none rfl, List.filterMap_append, b.tells.begun]
  exact List.append_nil _

theorem begun_blocks (blocks : List Block) :
    (blocks.flatMap Block.events).filterMap Event.begun? = blocks.flatMap Block.artifacts := by
  rw [List.filterMap_flatMap, funext begun_block]

/-- **Artifacts are numbered task by task.** A successful run tells one block for each task, in
order. The tasks are numbered below their total. All artifacts are begun with the total that the
start has announced, the number of JSON artifacts in the contracts of all tasks; within a task their
numbers are distinct, and only an artifact adopted for a reference can have a number that reaches
the total. -/
theorem artifacts_are_numbered {c : Conditions σ} {l : PipelineLocation} {w w' : World σ}
    {s : Summary} (h : analyzePipeline c l w = (.ok s, w')) :
    ∃ (work : List TaskWork) (blocks : List Block) (told : List Event),
      Run.prepared l w.files = .ok work ∧ w'.events = told.reverse ++ w.events
      ∧ told = Event.started l.slug work.length (Run.artifactCount work)
          :: blocks.flatMap Block.events ++ [Event.complete s]
      ∧ told.filterMap Event.begun? = blocks.flatMap Block.artifacts
      ∧ blocks.map Block.progress = progressFrom work.length 0 (work.map TaskWork.task)
      ∧ (∀ b ∈ blocks, b.progress.index < b.progress.total)
      ∧ List.Forall₂ (Block.IsNumbered (Run.artifactCount work)) work blocks := by
  obtain ⟨work, acts, hsucceeded⟩ := succeeded_of_ok h
  have hevents := hsucceeded.passes.events
  have hcourse := hsucceeded.course
  cases hcourse with
  | @done count acts _ course _ =>
  obtain ⟨blocks, htold, hprogress, hnumbered⟩ := course.numbered rfl fun t ht =>
    Run.length_ownArtifacts_le ht
  have hacts : (Act.told (.started l.slug work.length (Run.artifactCount work))
      :: (acts ++ [Act.told (.complete ⟨l.slug, work.length, count, 0⟩)])).filterMap Act.event?
      = Event.started l.slug work.length (Run.artifactCount work)
        :: blocks.flatMap Block.events ++ [Event.complete ⟨l.slug, work.length, count, 0⟩] := by
    rw [← htold]
    exact congrArg (_ :: ·) (List.filterMap_append ..)
  refine ⟨work, blocks, _, hsucceeded.prepared, hevents, hacts, ?begun, hprogress, ?below,
    hnumbered⟩
  case begun =>
    rw [hacts, List.filterMap_append, List.filterMap_cons_none rfl, begun_blocks]
    exact List.append_nil _
  case below =>
    intro b hb
    have hmem : b.progress ∈ blocks.map Block.progress := List.mem_map_of_mem hb
    rw [hprogress] at hmem
    obtain ⟨htotal, hindex⟩ := mem_progressFrom hmem
    rwa [htotal, ← List.length_map TaskWork.task]

/-- A task that writes one artifact, and one that writes two with computed names. -/
def ownAndAdopted : FileTree :=
  { entries := [([Text.ofString "p"], .directory),
      ([Text.ofString "p", Text.ofString "pipeline.json"],
        .file (Text.ofString "\x7b\"tasks\":[\"a\",\"b\"]\x7d")),
      ([Text.ofString "p", Text.ofString "a.js"],
        .file (Text.ofString "export function f()\x7bio.writeArtifact('x.json')\x7d")),
      ([Text.ofString "p", Text.ofString "b.js"], .file (Text.ofString
        "export function g()\x7bio.writeArtifact(n);io.writeArtifact(o)\x7d"))]
    current := [] }

def sureGuess (name : String) : Chat.Reply :=
  .response (.object [("resolvedFileName", .ofString name), ("confidence", .int 7)])

def ownAndAdoptedWorld : World (List Chat.Reply) :=
  { files := ownAndAdopted
    client := [laxSchema, sureGuess "y.json", sureGuess "z.json", laxSchema, laxSchema] }

def numbersIn (events : List Event) : List (Nat × Nat) :=
  (events.filterMap Event.begun?).map fun p => (p.index, p.total)

set_option maxRecDepth 100000 in
theorem ownAndAdopted_told :
    (analyzePipeline toldConditions flatLocation ownAndAdoptedWorld).1.isOk = true
      ∧ numbersIn (analyzePipeline toldConditions flatLocation ownAndAdoptedWorld).2.events.reverse
        = [(0, 1), (0, 1), (1, 1)] := by
  decide +kernel

theorem ownAndAdopted_succeeds : ∃ s w',
    analyzePipeline toldConditions flatLocation ownAndAdoptedWorld = (.ok s, w')
      ∧ numbersIn w'.events.reverse = [(0, 1), (0, 1), (1, 1)] := by
  obtain ⟨hok, htold⟩ := ownAndAdopted_told
  cases hrun : analyzePipeline toldConditions flatLocation ownAndAdoptedWorld with
  | mk r w' =>
      rw [hrun] at hok htold
      cases r with
      | error e => cases hok
      | ok s => exact ⟨s, w', rfl, htold⟩

/-- Each task has its own numbers, and the second adopted artifact reaches the total. -/
theorem ownAndAdopted_numbered : ∃ (s : Summary) (w' : World (List Chat.Reply))
    (work : List TaskWork) (blocks : List Block),
    analyzePipeline toldConditions flatLocation ownAndAdoptedWorld = (.ok s, w')
      ∧ List.Forall₂ (Block.IsNumbered (Run.artifactCount work)) work blocks
      ∧ (blocks.flatMap Block.artifacts).map (fun p => (p.index, p.total))
        = [(0, 1), (0, 1), (1, 1)] := by
  obtain ⟨s, w', hrun, hnumbers⟩ := ownAndAdopted_succeeds
  obtain ⟨work, blocks, told, -, hevents, -, hbegun, -, -, hnumbered⟩ := artifacts_are_numbered hrun
  refine ⟨s, w', work, blocks, hrun, hnumbered, ?_⟩
  have htold : w'.events.reverse = told := by
    rw [hevents]
    show (told.reverse ++ []).reverse = told
    rw [List.append_nil, List.reverse_reverse]
  rw [← hbegun, ← htold]
  exact hnumbers

/-- Over a whole run the numbers are not distinct, and not all of them are below their totals. -/
theorem numbers_not_of_whole_run : ∃ (s : Summary) (w' : World (List Chat.Reply)),
    analyzePipeline toldConditions flatLocation ownAndAdoptedWorld = (.ok s, w')
      ∧ ¬ ((numbersIn w'.events.reverse).map Prod.fst).Nodup
      ∧ ¬ ∀ x ∈ numbersIn w'.events.reverse, x.1 < x.2 := by
  obtain ⟨s, w', hrun, hnumbers⟩ := ownAndAdopted_succeeds
  refine ⟨s, w', hrun, ?_⟩
  rw [hnumbers]
  decide

end TaskContract
