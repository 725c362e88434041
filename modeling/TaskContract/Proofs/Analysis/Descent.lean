import TaskContract.Proofs.Analysis.Exports

/-!
# Descent through a syntax tree

A descent goes from the root to the leaves and carries down what it has entered: the innermost
export statement, the exported function of it on the way, and whether a `try` statement. It asks no
node for its ancestors and compares no spans.

- `survey_eq`: a descent comes to the nodes that the walk comes to, each with the surroundings that
  its ancestors make.
- `stageOf_eq`: the function that a descent has entered is the one that the search by spans finds.
-/

namespace TaskContract.Analysis

open Script Script.Node

/-! ## Surroundings -/

/-- What a descent has entered on its way from the root. -/
structure Surroundings where
  statement : Option Node
  function : Option ExportedFunction
  inTry : Bool

namespace Surroundings

def top : Surroundings :=
  ⟨none, none, false⟩

def stage? (u : Surroundings) : Option Text :=
  u.function.map ExportedFunction.name

end Surroundings

def functionAt? (s : Source) (e n : Node) : Option ExportedFunction :=
  if isNamedExport e then (exportedFunctions s e).find? fun f => f.function = n else none

/-- Enters a node. An export statement covers up the one around it; of the functions of a statement
the first that is entered counts. -/
def Surroundings.enter (s : Source) (n : Node) (u : Surroundings) : Surroundings :=
  if n.kind = .exportStatement then { u with statement := some n, function := none }
  else
    { u with
      function := u.function.or (u.statement.bind fun e => functionAt? s e n)
      inTry := u.inTry || n.kind = .tryStatement }

def surroundings (s : Source) (ancestors : List Node) : Surroundings :=
  ancestors.foldr (Surroundings.enter s) .top

/-! ## The descent -/

section

variable (s : Source)

mutual

/-- The node and all below it with their surroundings, a parent before its children. -/
def descend (u : Surroundings) : Node → List (Surroundings × Node)
  | .mk kind role start stop children =>
    (u, .mk kind role start stop children)
      :: descendAll (u.enter s (.mk kind role start stop children)) children

def descendAll (u : Surroundings) : List Node → List (Surroundings × Node)
  | [] => []
  | n :: rest => descend u n ++ descendAll u rest

end

def survey (root : Node) : List (Surroundings × Node) :=
  descend s .top root

def inSurroundings (o : Occurrence) : Surroundings × Node :=
  (surroundings s o.ancestors, o.node)

mutual

theorem descend_eq_under (ancestors : List Node) :
    ∀ n : Node, descend s (surroundings s ancestors) n
      = (occurrencesUnder ancestors n).map (inSurroundings s)
  | .mk kind role start stop children => by
      rw [descend, occurrencesUnder, List.map_cons]
      congr 1
      exact descendAll_eq_all (.mk kind role start stop children :: ancestors) children

theorem descendAll_eq_all (ancestors : List Node) :
    ∀ ns : List Node, descendAll s (surroundings s ancestors) ns
      = (occurrencesAll ancestors ns).map (inSurroundings s)
  | [] => by rw [descendAll, occurrencesAll, List.map_nil]
  | n :: rest => by
      rw [descendAll, occurrencesAll, List.map_append, descend_eq_under ancestors n,
        descendAll_eq_all ancestors rest]

end

/-- A descent comes to the nodes that the walk with a stack comes to, in the same order. -/
theorem survey_eq (root : Node) : survey s root = root.occurrences.map (inSurroundings s) := by
  rw [occurrences_eq]
  exact descend_eq_under s [] root

end

/-! ## What the ancestors make -/

section

variable {s : Source} {e : Node} {between outer : List Node}

theorem surroundings_cons (n : Node) (ancestors : List Node) :
    surroundings s (n :: ancestors) = (surroundings s ancestors).enter s n :=
  rfl

theorem surroundings_inTry (ancestors : List Node) :
    (surroundings s ancestors).inTry = ancestors.any fun n => n.kind = .tryStatement := by
  induction ancestors with
  | nil => rfl
  | cons n rest ih =>
      rw [surroundings_cons, List.any_cons, ← ih, Surroundings.enter]
      by_cases hexport : n.kind = .exportStatement
      · simp [hexport]
      · simp [hexport, Bool.or_comm]

theorem surroundings_statement (ancestors : List Node) :
    (surroundings s ancestors).statement = ancestors.find? fun n => n.kind = .exportStatement := by
  induction ancestors with
  | nil => rfl
  | cons n rest ih =>
      rw [surroundings_cons, Surroundings.enter]
      by_cases hexport : n.kind = .exportStatement
      · simp [hexport]
      · simp [hexport, ih]

theorem surroundings_outside {ancestors : List Node}
    (h : ∀ n ∈ ancestors, n.kind ≠ .exportStatement) :
    (surroundings s ancestors).function = none := by
  induction ancestors with
  | nil => rfl
  | cons n rest ih =>
      have hrest : ∀ m ∈ rest, m.kind ≠ .exportStatement :=
        fun m hm => h m (List.mem_cons_of_mem n hm)
      have hstatement : (surroundings s rest).statement = none := by
        rw [surroundings_statement, List.find?_eq_none]
        simpa using hrest
      rw [surroundings_cons, Surroundings.enter, if_neg (h n List.mem_cons_self)]
      simp [ih hrest, hstatement]

theorem functionAt_eq_some {n : Node} {f : ExportedFunction} (h : functionAt? s e n = some f) :
    isNamedExport e = true ∧ f ∈ exportedFunctions s e ∧ f.function = n := by
  rw [functionAt?] at h
  split at h
  · rename_i hnamed
    have hfn := List.find?_some h
    exact ⟨hnamed, List.mem_of_find?_eq_some h, by simpa using hfn⟩
  · cases h

/-- A step below an export statement `e` that enters no other one. -/
theorem function_step {n : Node} (he : e.kind = .exportStatement)
    (hbetween : ∀ m ∈ n :: between, m.kind ≠ .exportStatement) :
    (surroundings s (n :: between ++ e :: outer)).function
      = (surroundings s (between ++ e :: outer)).function.or (functionAt? s e n) := by
  have hstatement : (surroundings s (between ++ e :: outer)).statement = some e := by
    rw [surroundings_statement, List.find?_eq_some_iff_append]
    refine ⟨by simpa using he, between, outer, rfl, ?_⟩
    intro m hm
    simpa using hbetween m (List.mem_cons_of_mem n hm)
  rw [List.cons_append, surroundings_cons, Surroundings.enter,
    if_neg (hbetween n List.mem_cons_self), hstatement, Option.bind_some]

/-- The function that has been entered is one of the innermost statement, and on the way. -/
theorem function_mem (he : e.kind = .exportStatement)
    (hbetween : ∀ m ∈ between, m.kind ≠ .exportStatement) {f : ExportedFunction}
    (h : (surroundings s (between ++ e :: outer)).function = some f) :
    isNamedExport e = true ∧ f ∈ exportedFunctions s e ∧ f.function ∈ between := by
  induction between with
  | nil =>
      rw [List.nil_append, surroundings_cons, Surroundings.enter, if_pos he] at h
      cases h
  | cons n rest ih =>
      rw [function_step he hbetween, Option.or_eq_some_iff] at h
      rcases h with h | ⟨_, h⟩
      · obtain ⟨hnamed, hf, hmem⟩ := ih (fun m hm => hbetween m (List.mem_cons_of_mem n hm)) h
        exact ⟨hnamed, hf, List.mem_cons_of_mem n hmem⟩
      · obtain ⟨hnamed, hf, rfl⟩ := functionAt_eq_some h
        exact ⟨hnamed, hf, List.mem_cons_self⟩

theorem function_ne_none (he : e.kind = .exportStatement)
    (hbetween : ∀ m ∈ between, m.kind ≠ .exportStatement) (hnamed : isNamedExport e = true)
    {f : ExportedFunction} (hf : f ∈ exportedFunctions s e) (hmem : f.function ∈ between) :
    (surroundings s (between ++ e :: outer)).function ≠ none := by
  induction between with
  | nil => cases hmem
  | cons n rest ih =>
      rw [function_step he hbetween, Ne, Option.or_eq_none_iff]
      rintro ⟨hrest, hat⟩
      rcases List.mem_cons.mp hmem with hfn | hmem
      · rw [functionAt?, if_pos hnamed, List.find?_eq_none] at hat
        exact hat f hf (by simpa using hfn)
      · exact ih (fun m hm => hbetween m (List.mem_cons_of_mem n hm)) hmem hrest

end

/-! ## Entered functions and spans -/

/-- The search of a call's stage, upwards for the statement and by spans for the function, finds
the function that a descent to the call has entered. -/
theorem stageOf_eq {s : Source} {root : Node} {o : Occurrence} (h : root.isLaidOut = true)
    (ho : o ∈ root.occurrences) (hcall : o.node.kind = .callExpression) :
    stageOf? s o = (surroundings s o.ancestors).stage? := by
  obtain ⟨n, ancestors⟩ := o
  obtain ⟨hlaid, hchain⟩ := isChain_of_mem_occurrences h ho
  have hn : n.start < n.stop := start_lt_stop_of_call hlaid hcall
  rw [stageOf?, Occurrence.within?, Surroundings.stage?]
  cases hfind : ancestors.find? fun m => m.kind = .exportStatement with
  | none =>
      have houtside : ∀ m ∈ ancestors, m.kind ≠ .exportStatement := by
        simpa using List.find?_eq_none.mp hfind
      rw [surroundings_outside houtside]
      rfl
  | some e =>
      obtain ⟨he, between, outer, rfl, hbetween⟩ := List.find?_eq_some_iff_append.mp hfind
      replace he : e.kind = .exportStatement := by simpa using he
      replace hbetween : ∀ m ∈ between, m.kind ≠ .exportStatement := by simpa using hbetween
      obtain ⟨_, _, _, hchild⟩ := exists_child_of_isChain hchain
      have hencloses : ∀ f ∈ exportedFunctions s e,
          (f.function.encloses n = true ↔ f.function ∈ between) :=
        fun f hf => encloses_iff_mem_between hf hchain hcall hn
      rw [Option.bind_eq_bind, Option.bind_some]
      -- a function that the search finds has been entered, and the one entered is found
      cases hfunction : (surroundings s (between ++ e :: outer)).function with
      | none =>
          by_cases hnamed : isNamedExport e = true
          · rw [if_pos hnamed, List.findSome?_eq_none_iff.mpr]
            · rfl
            · intro f hf
              refine if_neg fun hfn => ?_
              exact function_ne_none he hbetween hnamed hf ((hencloses f hf).mp hfn) hfunction
          · rw [if_neg hnamed]
            rfl
      | some f =>
          obtain ⟨hnamed, hf, hmem⟩ := function_mem he hbetween hfunction
          have hfn : f.function.encloses n = true := (hencloses f hf).mpr hmem
          rw [if_pos hnamed, search_eq_some hchild.laidOut hn hf hfn]
          rfl

end TaskContract.Analysis
