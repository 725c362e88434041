import Mathlib.Data.List.Forall2
import TaskContract.Analysis.Exports
import TaskContract.Proofs.Script.EarlyError
import TaskContract.Proofs.Script.Order
import TaskContract.Proofs.Sequence
import TaskContract.Script.Fault

/-!
# The stages of a script

Every function that an export statement declares is one stage, wherever the statement stands.

- `DeclaresAt`: the two ways in which an export statement declares a function, with the node that
  makes the declaration.
- `stages_unsorted`: the stages come up in the order of their lines, so sorting leaves them as they
  are.
- `stages_are_declarations`: there is one stage for each declaration, in the order of the source.
-/

namespace TaskContract.Analysis

open Script Script.Node

/-! ## Declarations of functions -/

/-- A node makes an export statement declare a function: it is the declaration of the statement, or
it is one of the variables of that, with a plain name and a function as its value. -/
inductive DeclaresAt (s : Source) (e : Node) : Node → ExportedFunction → Prop
  | ofFunction {d name : Node} (declaration : e.child? .declaration = some d)
      (kind : d.kind = .functionDeclaration ∨ d.kind = .generatorFunctionDeclaration)
      (named : d.child? .name = some name) : DeclaresAt s e d ⟨s.nodeText name, d⟩
  | ofVariable {d v name value : Node} (declaration : e.child? .declaration = some d)
      (kind : d.kind = .lexicalDeclaration ∨ d.kind = .variableDeclaration)
      (mem : v ∈ d.children) (declarator : v.kind = .variableDeclarator)
      (named : v.child? .name = some name) (plain : name.kind = .identifier)
      (valued : v.child? .value = some value)
      (valueKind : value.kind = .arrowFunction ∨ value.kind = .functionExpression
        ∨ value.kind = .generatorFunction) : DeclaresAt s e v ⟨s.nodeText name, value⟩

def declarationSites (e : Node) : List Node :=
  match e.child? .declaration with
  | none => []
  | some d => d :: d.children

/-- An export statement without a `default` token of its own. -/
structure IsNamedExport (n : Node) : Prop where
  kind : n.kind = .exportStatement
  noDefault : ∀ c ∈ n.children, c.kind ≠ .token "default"

/-- The stage of a declaration: it has the name and the line of the export, and it is asynchronous
if the function has an `async` token of its own. -/
def IsStageOf (s : Source) (site : Node × Node) (stage : Stage) : Prop :=
  ∃ f, DeclaresAt s site.1 site.2 f ∧ stage.name = f.name
    ∧ stage.order = (s.location site.1.start).line
    ∧ (stage.isAsync = true ↔ ∃ c ∈ f.function.children, c.kind = .token "async")

section

variable {s : Source}

theorem isNamedExport_iff {n : Node} : isNamedExport n = true ↔ IsNamedExport n := by
  have hdefault : n.hasToken "default" = false ↔ ∀ c ∈ n.children, c.kind ≠ .token "default" := by
    simp [hasToken]
  rw [isNamedExport, Bool.and_eq_true, Bool.not_eq_true', hdefault, decide_eq_true_eq]
  constructor
  · rintro ⟨kind, noDefault⟩
    exact ⟨kind, noDefault⟩
  · intro h
    exact ⟨h.kind, h.noDefault⟩

instance {n : Node} : Decidable (IsNamedExport n) :=
  decidable_of_iff _ isNamedExport_iff

theorem isFunctionValue_iff {k : Kind} :
    isFunctionValue k = true ↔ k = .arrowFunction ∨ k = .functionExpression
      ∨ k = .generatorFunction := by
  constructor
  · intro h
    cases k <;> simp_all [isFunctionValue]
  · rintro (rfl | rfl | rfl) <;> rfl

theorem variableFunction_eq_some_iff {v : Node} {f : ExportedFunction} :
    variableFunction? s v = some f ↔ ∃ name value, v.kind = .variableDeclarator
      ∧ v.child? .name = some name ∧ name.kind = .identifier ∧ v.child? .value = some value
      ∧ isFunctionValue value.kind = true ∧ f = ⟨s.nodeText name, value⟩ := by
  constructor
  · intro h
    rw [variableFunction?] at h
    split_ifs at h with hkind
    split at h
    · rename_i name value hname hvalue
      split_ifs at h with hboth
      rw [Bool.and_eq_true, decide_eq_true_eq] at hboth
      exact ⟨name, value, hkind, hname, hboth.1, hvalue, hboth.2, (Option.some.inj h).symm⟩
    · cases h
  · rintro ⟨name, value, hkind, hname, hplain, hvalue, hfunction, rfl⟩
    simp [variableFunction?, hkind, hname, hplain, hvalue, hfunction]

theorem functionVariables_eq (d : Node) :
    functionVariables s d = d.children.filterMap (variableFunction? s) := by
  rw [functionVariables, namedChildren, List.filterMap_filter]
  congr 1
  funext v
  split_ifs with hnamed
  · rfl
  · cases hv : variableFunction? s v with
    | none => rfl
    | some f =>
        obtain ⟨_, _, hkind, -⟩ := variableFunction_eq_some_iff.mp hv
        exact absurd (by rw [hkind]; rfl) hnamed

theorem not_mem_children (n : Node) : n ∉ n.children := by
  obtain ⟨kind, role, start, stop, children⟩ := n
  intro h
  have hsize := List.sizeOf_lt_of_mem h
  rw [Node.mk.sizeOf_spec] at hsize
  have hchildren : (mk kind role start stop children).children = children := rfl
  rw [hchildren] at hsize
  omega

section

variable {e d : Node} (hd : e.child? .declaration = some d)

include hd

theorem declaresAt_function_iff
    (hkind : d.kind = .functionDeclaration ∨ d.kind = .generatorFunctionDeclaration)
    {p : Node} {f : ExportedFunction} :
    DeclaresAt s e p f ↔ p = d ∧ ∃ name, d.child? .name = some name ∧ f = ⟨s.nodeText name, d⟩ := by
  constructor
  · intro h
    cases h with
    | ofFunction hp _ named =>
        obtain rfl := Option.some.inj (hd.symm.trans hp)
        exact ⟨rfl, _, named, rfl⟩
    | ofVariable hp hvariable =>
        obtain rfl := Option.some.inj (hd.symm.trans hp)
        rcases hkind with h | h <;> simp [h] at hvariable
  · rintro ⟨rfl, name, hname, rfl⟩
    exact .ofFunction hd hkind hname

theorem declaresAt_variable_iff
    (hkind : d.kind = .lexicalDeclaration ∨ d.kind = .variableDeclaration)
    {p : Node} {f : ExportedFunction} :
    DeclaresAt s e p f ↔ p ∈ d.children ∧ variableFunction? s p = some f := by
  rw [variableFunction_eq_some_iff]
  constructor
  · intro h
    cases h with
    | ofFunction hp hfunction =>
        obtain rfl := Option.some.inj (hd.symm.trans hp)
        rcases hkind with h | h <;> simp [h] at hfunction
    | ofVariable hp _ mem declarator named plain valued valueKind =>
        obtain rfl := Option.some.inj (hd.symm.trans hp)
        exact ⟨mem, _, _, declarator, named, plain, valued, isFunctionValue_iff.mpr valueKind, rfl⟩
  · rintro ⟨mem, name, value, declarator, named, plain, valued, hfunction, rfl⟩
    exact .ofVariable hd hkind mem declarator named plain valued (isFunctionValue_iff.mp hfunction)

open scoped Classical in
theorem exportedFunctions_of_function
    (hkind : d.kind = .functionDeclaration ∨ d.kind = .generatorFunctionDeclaration) :
    List.Forall₂ (DeclaresAt s e)
      ((declarationSites e).filter fun p => ∃ f, DeclaresAt s e p f) (exportedFunctions s e) := by
  have hfound : exportedFunctions s e
      = ((d.child? .name).map fun name => ⟨s.nodeText name, d⟩).toList := by
    rcases hkind with h | h <;> simp [exportedFunctions, hd, h]
  have hinner : (d.children.filter fun p => ∃ f, DeclaresAt s e p f) = [] := by
    rw [List.filter_eq_nil_iff]
    intro p hp hdeclared
    obtain ⟨f, hf⟩ := of_decide_eq_true hdeclared
    obtain ⟨rfl, -⟩ := (declaresAt_function_iff hd hkind).mp hf
    exact not_mem_children p hp
  rw [hfound, declarationSites, hd]
  dsimp only
  cases hname : d.child? .name with
  | none =>
      have hnone : ¬ ∃ f, DeclaresAt s e d f := by
        rintro ⟨f, hf⟩
        obtain ⟨-, name, hsome, -⟩ := (declaresAt_function_iff hd hkind).mp hf
        rw [hname] at hsome
        cases hsome
      rw [List.filter_cons_of_neg (by simpa using hnone), hinner]
      exact List.Forall₂.nil
  | some name =>
      have hf : DeclaresAt s e d ⟨s.nodeText name, d⟩ := .ofFunction hd hkind hname
      rw [List.filter_cons_of_pos (by simpa using ⟨_, hf⟩), hinner]
      exact List.Forall₂.cons hf List.Forall₂.nil

open scoped Classical in
theorem exportedFunctions_of_variables
    (hkind : d.kind = .lexicalDeclaration ∨ d.kind = .variableDeclaration) :
    List.Forall₂ (DeclaresAt s e)
      ((declarationSites e).filter fun p => ∃ f, DeclaresAt s e p f) (exportedFunctions s e) := by
  have hself : variableFunction? s d = none := by
    rcases hkind with h | h <;> simp [variableFunction?, h]
  have hfound : exportedFunctions s e = (d :: d.children).filterMap (variableFunction? s) := by
    rw [List.filterMap_cons, hself, ← functionVariables_eq]
    rcases hkind with h | h <;> simp [exportedFunctions, hd, h]
  rw [hfound, declarationSites, hd]
  apply forall₂_filter_filterMap
  intro p hp f
  rw [declaresAt_variable_iff hd hkind]
  rcases List.mem_cons.mp hp with rfl | hp
  · simp [hself]
  · simp [hp]

end

open scoped Classical in
/-- The functions of an export statement are declared one by one at its sites. -/
theorem exportedFunctions_spec (e : Node) :
    List.Forall₂ (DeclaresAt s e)
      ((declarationSites e).filter fun p => ∃ f, DeclaresAt s e p f) (exportedFunctions s e) := by
  cases hd : e.child? .declaration with
  | none => simp [declarationSites, exportedFunctions, hd]
  | some d =>
      by_cases hfunction : d.kind = .functionDeclaration ∨ d.kind = .generatorFunctionDeclaration
      · exact exportedFunctions_of_function hd hfunction
      · by_cases hvariable : d.kind = .lexicalDeclaration ∨ d.kind = .variableDeclaration
        · exact exportedFunctions_of_variables hd hvariable
        · have hnone : ∀ p, ¬ ∃ f, DeclaresAt s e p f := by
            rintro p ⟨f, h⟩
            cases h with
            | ofFunction hp h =>
                obtain rfl := Option.some.inj (hd.symm.trans hp)
                exact hfunction h
            | ofVariable hp h =>
                obtain rfl := Option.some.inj (hd.symm.trans hp)
                exact hvariable h
          have hfound : exportedFunctions s e = [] := by
            rw [exportedFunctions, hd]
            dsimp only
            split <;> simp_all
          simp [hfound, hnone]

/-! ## Stages -/

def exportSites (root : Node) : List (Node × Node) :=
  (root.preorder.filter fun n => IsNamedExport n).flatMap fun e =>
    (declarationSites e).map fun p => (e, p)

theorem isStageOf_stage {e p : Node} {f : ExportedFunction} (h : DeclaresAt s e p f) :
    IsStageOf s (e, p)
      { name := f.name, order := (s.location e.start).line, isAsync := isAsync f.function } :=
  ⟨f, h, rfl, rfl, isAsync_iff⟩

open scoped Classical in
theorem stagesOf_spec {e : Node} (h : IsNamedExport e) :
    List.Forall₂ (IsStageOf s)
      (((declarationSites e).map fun p => (e, p)).filter fun x => ∃ f, DeclaresAt s x.1 x.2 f)
      (stagesOf s e) := by
  rw [stagesOf, if_pos (isNamedExport_iff.mpr h), List.filter_map, List.forall₂_map_left_iff,
    List.forall₂_map_right_iff]
  exact (exportedFunctions_spec e).imp fun _ _ => isStageOf_stage

open scoped Classical in
theorem flatMap_stagesOf (ns : List Node) :
    List.Forall₂ (IsStageOf s)
      (((ns.filter fun n => IsNamedExport n).flatMap fun e =>
        (declarationSites e).map fun p => (e, p)).filter fun x => ∃ f, DeclaresAt s x.1 x.2 f)
      (ns.flatMap (stagesOf s)) := by
  induction ns with
  | nil => exact List.Forall₂.nil
  | cons n rest ih =>
      by_cases hnamed : IsNamedExport n
      · rw [List.filter_cons_of_pos (by simpa using hnamed), List.flatMap_cons, List.flatMap_cons,
          List.filter_append]
        exact List.rel_append (stagesOf_spec hnamed) ih
      · have hnone : stagesOf s n = [] := by
          rw [stagesOf, if_neg (by rwa [isNamedExport_iff])]
        rw [List.filter_cons_of_neg (by simpa using hnamed), List.flatMap_cons, hnone]
        exact ih

theorem order_of_mem_stagesOf {e : Node} {stage : Stage} (h : stage ∈ stagesOf s e) :
    stage.order = (s.location e.start).line := by
  rw [stagesOf] at h
  split_ifs at h
  · obtain ⟨f, -, rfl⟩ := List.mem_map.mp h
    rfl
  · cases h

theorem orders_ascend {root : Node} (h : root.InOrder) :
    (root.preorder.flatMap (stagesOf s)).Pairwise fun a b => a.order ≤ b.order := by
  rw [List.pairwise_flatMap]
  constructor
  · intro e _
    apply List.pairwise_of_forall_mem_list
    intro a ha b hb
    rw [order_of_mem_stagesOf ha, order_of_mem_stagesOf hb]
  · apply (starts_ascend h).imp
    intro e e' hstart a ha b hb
    rw [order_of_mem_stagesOf ha, order_of_mem_stagesOf hb]
    exact Source.location_line_mono hstart

theorem stages_unsorted {root : Node} (h : root.InOrder) :
    stages s root = root.preorder.flatMap (stagesOf s) := by
  rw [stages]
  apply List.mergeSort_of_pairwise
  exact (orders_ascend h).imp decide_eq_true

theorem statements_ascend {root : Node} (h : root.InOrder) :
    ((exportSites root).map Prod.fst).Pairwise fun e e' => e.start ≤ e'.start := by
  have hsame : ∀ {e a : Node}, a ∈ ((declarationSites e).map fun p => (e, p)).map Prod.fst →
      a = e := by
    intro e a ha
    simp only [List.map_map, List.mem_map, Function.comp_apply] at ha
    obtain ⟨_, _, rfl⟩ := ha
    rfl
  rw [exportSites, List.map_flatMap, List.pairwise_flatMap]
  constructor
  · intro e _
    apply List.pairwise_of_forall_mem_list
    intro a ha b hb
    rw [hsame ha, hsame hb]
  · apply ((starts_ascend h).filter _).imp
    intro e e' hstart a ha b hb
    rw [hsame ha, hsame hb]
    exact hstart

theorem sites_ascend {e : Node} (h : e.InOrder) :
    (declarationSites e).Pairwise fun p q => p.start ≤ q.start := by
  rw [declarationSites]
  split
  · exact List.Pairwise.nil
  · rename_i d hd
    have hlaid : d.InOrder := h.child (child?_mem hd)
    rw [List.pairwise_cons]
    constructor
    · intro v hv
      exact (encloses_iff.mp (hlaid.holds.within v hv)).1
    · apply List.Pairwise.imp_of_mem _ hlaid.holds.disjoint
      intro v w hv _ hvw
      exact Nat.le_trans (hlaid.child hv).holds.span hvw

end

open scoped Classical in
/-- **Every exported function is one stage.** In a tree in order the stages are paired one to one
with the sites at which an export statement without a `default` token declares a function, at
whatever depth the statement stands: in the order of the statements, and in that of the variables
within one. They come up line by line, and sorting them leaves them as they are. -/
theorem stages_are_declarations (s : Source) (root : Node) (h : root.InOrder) :
    List.Forall₂ (IsStageOf s)
        ((exportSites root).filter fun x => ∃ f, DeclaresAt s x.1 x.2 f) (stages s root)
      ∧ (∀ e p, (e, p) ∈ exportSites root
        ↔ e ∈ root.preorder ∧ IsNamedExport e ∧ p ∈ declarationSites e)
      ∧ ((exportSites root).map Prod.fst).Pairwise (fun e e' => e.start ≤ e'.start)
      ∧ (∀ e ∈ root.preorder, (declarationSites e).Pairwise fun p q => p.start ≤ q.start)
      ∧ (root.preorder.flatMap (stagesOf s)).Pairwise (fun a b => a.order ≤ b.order)
      ∧ stages s root = root.preorder.flatMap (stagesOf s) := by
  refine ⟨?paired, ?sites, ?statements, ?within, orders_ascend h, stages_unsorted h⟩
  case paired =>
    rw [stages_unsorted h]
    exact flatMap_stagesOf root.preorder
  case sites =>
    intro e p
    simp [exportSites, and_assoc]
  case statements =>
    exact statements_ascend h
  case within =>
    intro e he
    exact sites_ascend (h.of_mem he)

/-- Stages at three depths, two of them in one statement, with a variable between them that is no
function. -/
def nestedExport : Source :=
  { chars := "export const f=async()=>\x7b\nexport function g()\x7b\x7d\x7d,a=1,h=()=>2".toList }

set_option maxRecDepth 100000 in
theorem nestedExport_found : ((parse nestedExport).toOption.any fun root =>
    decide root.InOrder
      && (root.preorder.flatMap (stagesOf nestedExport)).map
          (fun stage => (stage.name, stage.order, stage.isAsync))
        = [(Text.ofString "f", 1, true), (Text.ofString "h", 1, false),
          (Text.ofString "g", 2, false)]) = true := by
  decide +kernel

open scoped Classical in
theorem nestedExport_stages : ∃ root, parse nestedExport = .ok root ∧ root.InOrder
    ∧ (stages nestedExport root).map (fun stage => (stage.name, stage.order, stage.isAsync))
      = [(Text.ofString "f", 1, true), (Text.ofString "h", 1, false), (Text.ofString "g", 2, false)]
    ∧ List.Forall₂ (IsStageOf nestedExport)
      ((exportSites root).filter fun x => ∃ f, DeclaresAt nestedExport x.1 x.2 f)
      (stages nestedExport root) := by
  obtain ⟨root, hparse, hfound⟩ := exists_ok_of_any nestedExport_found
  rw [Bool.and_eq_true, decide_eq_true_eq, decide_eq_true_eq] at hfound
  obtain ⟨horder, hstages⟩ := hfound
  obtain ⟨hpaired, -, -, -, -, hunsorted⟩ := stages_are_declarations nestedExport root horder
  rw [← hunsorted] at hstages
  exact ⟨root, hparse, horder, hstages, hpaired⟩

end TaskContract.Analysis
