import TaskContract.Analysis.Task
import TaskContract.Proofs.Analysis.Extraction

/-!
# Where the stages of records come from

The stages of a contract are collected from the export statements; the stage of a record is found
from its call upwards. `records_are_staged` says that the two agree: the stage of every record is
one of the contract, made from the innermost export statement around the call and from the one
function of that statement that is an ancestor of the call.
-/

namespace TaskContract.Analysis

open Script Script.Node

/-! ## Origins -/

def belowExport (o : Occurrence) : List Node :=
  o.ancestors.takeWhile fun n => n.kind ≠ .exportStatement

/-- Where a stage comes from, seen from a call in it: from the innermost export statement around the
call, and from the one function of that statement which is an ancestor of the call. -/
def Origin (s : Source) (o : Occurrence) (stage : Stage) : Prop :=
  ∃ e fs f gs, o.within? (· = .exportStatement) = some e ∧ isNamedExport e = true
    ∧ exportedFunctions s e = fs ++ f :: gs ∧ f.function ∈ belowExport o
    ∧ (∀ g ∈ fs ++ gs, g.function ∉ belowExport o)
    ∧ stage = { name := f.name, order := (s.location e.start).line, isAsync := isAsync f.function }

/-- A stage among the given goes by the name, and it comes from around the call. -/
def IsStaged (s : Source) (stages : List Stage) (o : Occurrence) (name : Text) : Prop :=
  ∃ stage ∈ stages, stage.name = name ∧ Origin s o stage

theorem mem_stages_of_export {s : Source} {root e : Node} {f : ExportedFunction}
    (he : e ∈ root.preorder) (hnamed : isNamedExport e = true) (hf : f ∈ exportedFunctions s e) :
    ({ name := f.name, order := (s.location e.start).line, isAsync := isAsync f.function } : Stage)
      ∈ stages s root := by
  rw [stages, List.mem_mergeSort, List.mem_flatMap]
  refine ⟨e, he, ?_⟩
  rw [stagesOf, if_pos hnamed]
  exact List.mem_map.mpr ⟨f, hf, rfl⟩

theorem stageOf_spec {s : Source} {o : Occurrence} {name : Text}
    (h : stageOf? s o = some name) : ∃ e f, o.within? (· = .exportStatement) = some e
      ∧ isNamedExport e = true ∧ f ∈ exportedFunctions s e
      ∧ f.function.encloses o.node = true ∧ f.name = name := by
  rw [stageOf?, Option.bind_eq_bind, Option.bind_eq_some_iff] at h
  obtain ⟨e, he, hsearch⟩ := h
  split at hsearch
  · rename_i hnamed
    obtain ⟨f, hf, hname⟩ := List.exists_of_findSome?_eq_some hsearch
    split at hname
    · rename_i hfn
      exact ⟨e, f, he, hnamed, hf, hfn, Option.some.inj hname⟩
    · cases hname
  · cases hsearch

theorem belowExport_eq {o : Occurrence} {e : Node}
    (h : o.within? (· = .exportStatement) = some e) :
    ∃ outer, o.ancestors = belowExport o ++ e :: outer := by
  obtain ⟨he, between, outer, hancestors, hbetween⟩ := List.find?_eq_some_iff_append.mp h
  refine ⟨outer, ?_⟩
  rw [belowExport, hancestors, List.takeWhile_append_of_pos (by simpa using hbetween),
    List.takeWhile_cons_of_neg (by simpa using he), List.append_nil]

/-- The stage that is found for a call is one of the script, with its origin around the call. -/
theorem isStaged_of_stageOf {s : Source} {root : Node} {o : Occurrence} {name : Text}
    (h : root.isLaidOut = true) (ho : o ∈ root.occurrences) (hcall : o.node.kind = .callExpression)
    (hstage : stageOf? s o = some name) : IsStaged s (stages s root) o name := by
  obtain ⟨e, f, hwithin, hnamed, hf, hfn, hname⟩ := stageOf_spec hstage
  obtain ⟨outer, hancestors⟩ := belowExport_eq hwithin
  obtain ⟨hlaid, hchain⟩ := isChain_of_mem_occurrences h ho
  have hn : o.node.start < o.node.stop := start_lt_stop_of_call hlaid hcall
  rw [hancestors] at hchain
  have hbelow : f.function ∈ belowExport o :=
    (encloses_iff_mem_between hf hchain hcall hn).mp hfn
  have he : e ∈ root.preorder := by
    refine mem_preorder_of_ancestor ho ?_
    rw [hancestors]
    exact List.mem_append_right _ List.mem_cons_self
  obtain ⟨fs, gs, hsplit⟩ := List.append_of_mem hf
  refine ⟨_, mem_stages_of_export he hnamed hf, hname, e, fs, f, gs, hwithin, hnamed, hsplit,
    hbelow, ?_, rfl⟩
  intro g hg
  exact not_mem_between_of_split hchain hn hsplit hg hbelow

/-! ## Records -/

structure IsCallOf (s : Source) (root : Node) (method : Text) (c : ArtifactCall) : Prop where
  mem : c.occurrence ∈ artifactCalls s root method
  read : artifactCall s method c.occurrence = .ok c

section

variable {s : Source} {root : Node}

theorem isCallOf_of_mapM {method : Text} {calls : List ArtifactCall} {c : ArtifactCall}
    (h : (artifactCalls s root method).mapM (artifactCall s method) = .ok calls) (hc : c ∈ calls) :
    IsCallOf s root method c := by
  obtain ⟨o, ho, hread⟩ := mem_of_mapM h hc
  obtain ⟨rfl, _⟩ := artifactCall_spec hread
  exact ⟨ho, hread⟩

theorem IsCallOf.isStaged {method : Text} {c : ArtifactCall} (hc : IsCallOf s root method c)
    (h : root.isLaidOut = true) : IsStaged s (stages s root) c.occurrence c.stage := by
  obtain ⟨ho, hcall⟩ := mem_artifactCalls.mp hc.mem
  exact isStaged_of_stageOf h ho (isArtifactCall_kind hcall) (artifactCall_spec hc.read).2

section

variable {method : Text} {calls : List ArtifactCall}
  (h : (artifactCalls s root method).mapM (artifactCall s method) = .ok calls)

include h

theorem named_calls {ρ : Type} {f : ArtifactCall → Option ρ} :
    ∀ r ∈ calls.filterMap f, ∃ c, IsCallOf s root method c ∧ f c = some r := by
  intro r hr
  obtain ⟨c, hc, hf⟩ := List.mem_filterMap.mp hr
  exact ⟨c, isCallOf_of_mapM h hc, hf⟩

theorem unnamed_calls {f : ArtifactCall → UnresolvedReference} :
    ∀ r ∈ (calls.filter fun c => c.fileName.isNone).map f, ∃ c, IsCallOf s root method c
      ∧ c.fileName = none ∧ f c = r := by
  intro r hr
  obtain ⟨c, hc, hf⟩ := List.mem_map.mp hr
  obtain ⟨hc, hname⟩ := List.mem_filter.mp hc
  exact ⟨c, isCallOf_of_mapM h hc, Option.isNone_iff_eq_none.mp hname, hf⟩

end

theorem artifactReads_spec {found : ArtifactReads} (h : artifactReads s root = .ok found) :
    (∀ r ∈ found.reads, ∃ c, IsCallOf s root readMethod c ∧ c.read? = some r)
      ∧ ∀ r ∈ found.unresolved, ∃ c, IsCallOf s root readMethod c ∧ c.fileName = none
        ∧ c.unresolved s (some c.isRequired) = r := by
  rw [artifactReads, bind_return_eq_ok_iff] at h
  obtain ⟨calls, hcalls, rfl⟩ := h
  exact ⟨named_calls hcalls, unnamed_calls hcalls⟩

theorem artifactWrites_spec {found : ArtifactWrites} (h : artifactWrites s root = .ok found) :
    (∀ w ∈ found.writes, ∃ c, IsCallOf s root writeMethod c ∧ c.write? = some w)
      ∧ ∀ w ∈ found.unresolved, ∃ c, IsCallOf s root writeMethod c ∧ c.fileName = none
        ∧ c.unresolved s none = w := by
  rw [artifactWrites, bind_return_eq_ok_iff] at h
  obtain ⟨calls, hcalls, rfl⟩ := h
  exact ⟨named_calls hcalls, unnamed_calls hcalls⟩

theorem modelCalls_spec {found : List ModelCall} (h : modelCalls s root = .ok found) :
    ∀ m ∈ found, ∃ o ∈ root.occurrences,
      modelCall? s (aliases s root) o.node = some (m.provider, m.method)
        ∧ stageOf? s o = some m.stage := by
  intro m hm
  obtain ⟨⟨o, provider, method⟩, hcall, hread⟩ := mem_of_mapM h hm
  obtain ⟨o', ho, hmodel⟩ := List.mem_filterMap.mp hcall
  obtain ⟨rfl, hcalled⟩ := modelCallAt_spec hmodel
  dsimp only at hread
  split at hread
  · rename_i stage hstage
    obtain rfl := Except.ok.inj hread
    exact ⟨o, ho, hcalled, hstage⟩
  · cases hread

theorem analyzeTask_spec {contract : Contract} (h : analyzeTask s = .ok contract) :
    ∃ root reads writes, parse s = .ok root ∧ artifactReads s root = .ok reads
      ∧ artifactWrites s root = .ok writes ∧ modelCalls s root = .ok contract.models
      ∧ contract.stages = stages s root ∧ contract.reads = reads.reads
      ∧ contract.unresolvedReads = reads.unresolved ∧ contract.writes = writes.writes
      ∧ contract.unresolvedWrites = writes.unresolved := by
  rw [analyzeTask] at h
  split at h
  · cases h
  · rename_i root hparse
    split at h
    · cases h
    · rename_i found hfound
      obtain rfl := Except.ok.inj h
      obtain ⟨reads, hreads, hfound⟩ := bind_eq_ok_iff.mp hfound
      obtain ⟨writes, hwrites, hfound⟩ := bind_eq_ok_iff.mp hfound
      obtain ⟨models, hmodels, rfl⟩ := bind_return_eq_ok_iff.mp hfound
      exact ⟨root, reads, writes, hparse, hreads, hwrites, hmodels, rfl, rfl, rfl, rfl, rfl⟩

end

/-- **Every record is of a stage of its contract**, and that stage comes from around the call that
the record is of. -/
theorem records_are_staged (s : Source) (contract : Contract)
    (hlaid : ∀ root, parse s = .ok root → root.isLaidOut = true)
    (h : analyzeTask s = .ok contract) : ∃ root, parse s = .ok root
      ∧ (∀ r ∈ contract.reads, ∃ c, IsCallOf s root readMethod c ∧ c.read? = some r
        ∧ IsStaged s contract.stages c.occurrence r.stage)
      ∧ (∀ w ∈ contract.writes, ∃ c, IsCallOf s root writeMethod c ∧ c.write? = some w
        ∧ IsStaged s contract.stages c.occurrence w.stage)
      ∧ (∀ r ∈ contract.unresolvedReads, ∃ c, IsCallOf s root readMethod c ∧ c.fileName = none
        ∧ c.unresolved s (some c.isRequired) = r
        ∧ IsStaged s contract.stages c.occurrence r.stage)
      ∧ (∀ w ∈ contract.unresolvedWrites, ∃ c, IsCallOf s root writeMethod c ∧ c.fileName = none
        ∧ c.unresolved s none = w ∧ IsStaged s contract.stages c.occurrence w.stage)
      ∧ ∀ m ∈ contract.models, ∃ o ∈ root.occurrences,
        modelCall? s (aliases s root) o.node = some (m.provider, m.method)
          ∧ IsStaged s contract.stages o m.stage := by
  obtain ⟨root, reads, writes, hparse, hreads, hwrites, hmodels, hstages, hr, hru, hw, hwu⟩ :=
    analyzeTask_spec h
  have hroot : root.isLaidOut = true := hlaid root hparse
  rw [hstages, hr, hru, hw, hwu]
  refine ⟨root, hparse, ?reads, ?writes, ?unresolvedReads, ?unresolvedWrites, ?models⟩
  case reads =>
    intro r hr
    obtain ⟨c, hc, hread⟩ := (artifactReads_spec hreads).1 r hr
    obtain ⟨_, _, rfl⟩ := Option.map_eq_some_iff.mp hread
    exact ⟨c, hc, hread, hc.isStaged hroot⟩
  case writes =>
    intro w hw
    obtain ⟨c, hc, hwrite⟩ := (artifactWrites_spec hwrites).1 w hw
    obtain ⟨_, _, rfl⟩ := Option.map_eq_some_iff.mp hwrite
    exact ⟨c, hc, hwrite, hc.isStaged hroot⟩
  case unresolvedReads =>
    intro r hr
    obtain ⟨c, hc, hname, rfl⟩ := (artifactReads_spec hreads).2 r hr
    exact ⟨c, hc, hname, rfl, hc.isStaged hroot⟩
  case unresolvedWrites =>
    intro w hw
    obtain ⟨c, hc, hname, rfl⟩ := (artifactWrites_spec hwrites).2 w hw
    exact ⟨c, hc, hname, rfl, hc.isStaged hroot⟩
  case models =>
    intro m hm
    obtain ⟨o, ho, hcall, hstage⟩ := modelCalls_spec hmodels m hm
    exact ⟨o, ho, hcall, isStaged_of_stageOf hroot ho (modelCall_kind hcall) hstage⟩

def secondFunction : Source :=
  { chars := "export const e=()=>1,f=()=>io.writeArtifact(n)".toList }

set_option maxRecDepth 100000 in
theorem secondFunction_found : ((parse secondFunction).toOption.all Node.isLaidOut
    && (analyzeTask secondFunction).toOption.any fun contract =>
      contract.unresolvedWrites.map UnresolvedReference.stage = [Text.ofString "f"]) = true := by
  decide +kernel

theorem secondFunction_is_staged : ∃ contract root, analyzeTask secondFunction = .ok contract
    ∧ parse secondFunction = .ok root
    ∧ contract.unresolvedWrites.map UnresolvedReference.stage = [Text.ofString "f"]
    ∧ ∀ w ∈ contract.unresolvedWrites, ∃ c, IsCallOf secondFunction root writeMethod c
      ∧ IsStaged secondFunction contract.stages c.occurrence w.stage := by
  obtain ⟨hlaid, hfound⟩ := (Bool.and_eq_true _ _).mp secondFunction_found
  cases hanalyze : analyzeTask secondFunction with
  | error e =>
      rw [hanalyze] at hfound
      cases hfound
  | ok contract =>
      rw [hanalyze] at hfound
      have hroot : ∀ root, parse secondFunction = .ok root → root.isLaidOut = true := by
        intro root hparse
        rw [hparse] at hlaid
        exact hlaid
      obtain ⟨root, hparse, _, _, _, hwrites, _⟩ :=
        records_are_staged secondFunction contract hroot hanalyze
      refine ⟨contract, root, rfl, hparse, of_decide_eq_true hfound, ?_⟩
      intro w hw
      obtain ⟨c, hc, _, _, hstaged⟩ := hwrites w hw
      exact ⟨c, hc, hstaged⟩

end TaskContract.Analysis
