import TaskContract.Analysis.Exports
import TaskContract.Proofs.Script.Tree

/-!
# Where exported functions stand

- `Declares`: an exported function is the declaration of its statement, or the value of one of the
  variables of that declaration.
- `encloses_iff_mem_between`: the span of an exported function holds a call below its statement
  exactly if the function is on the way from the statement to the call.
- `enclosing_unique`: at most one function of a statement holds a call.
-/

namespace TaskContract.Analysis

open Script Script.Node

/-! ## The places of exported functions -/

/-- The two places of an exported function below its export statement. -/
inductive Declares (e f : Node) : Prop where
  | declaration (mem : f ∈ e.children)
      (kind : f.kind = .functionDeclaration ∨ f.kind = .generatorFunctionDeclaration)
  | value {d v : Node} (declaration : d ∈ e.children)
      (kind : d.kind = .lexicalDeclaration ∨ d.kind = .variableDeclaration)
      (declarator : v ∈ d.children) (declaratorKind : v.kind = .variableDeclarator)
      (mem : f ∈ v.children) (valueKind : isFunctionValue f.kind = true)

theorem variableFunction_spec {s : Source} {v : Node} {f : ExportedFunction}
    (h : variableFunction? s v = some f) :
    v.kind = .variableDeclarator ∧ f.function ∈ v.children
      ∧ isFunctionValue f.function.kind = true := by
  rw [variableFunction?] at h
  split at h
  · rename_i hkind
    split at h
    · rename_i name value _ hvalue
      split at h
      · rename_i hfunction
        obtain rfl := Option.some.inj h
        rw [Bool.and_eq_true] at hfunction
        exact ⟨hkind, child?_mem hvalue, hfunction.2⟩
      · cases h
    · cases h
  · cases h

theorem declares_of_mem {s : Source} {e : Node} {f : ExportedFunction}
    (h : f ∈ exportedFunctions s e) : Declares e f.function := by
  rw [exportedFunctions] at h
  split at h
  · cases h
  · rename_i d hd
    have hmem : d ∈ e.children := child?_mem hd
    have hdirect : f ∈ ((d.child? .name).map fun name =>
        (⟨s.nodeText name, d⟩ : ExportedFunction)).toList → f.function = d := by
      intro hf
      rw [Option.mem_toList, Option.map_eq_some_iff] at hf
      obtain ⟨_, _, rfl⟩ := hf
      rfl
    have hvariable : (d.kind = .lexicalDeclaration ∨ d.kind = .variableDeclaration) →
        f ∈ functionVariables s d → Declares e f.function := by
      intro hkind hf
      obtain ⟨v, hv, hvf⟩ := List.mem_filterMap.mp hf
      obtain ⟨hdeclarator, hvalue, hfunction⟩ := variableFunction_spec hvf
      exact .value hmem hkind (List.mem_filter.mp hv).1 hdeclarator hvalue hfunction
    split at h
    · rename_i hkind
      exact .declaration (hdirect h ▸ hmem) (Or.inl (hdirect h ▸ hkind))
    · rename_i hkind
      exact .declaration (hdirect h ▸ hmem) (Or.inr (hdirect h ▸ hkind))
    · rename_i hkind
      exact hvariable (Or.inl hkind) h
    · rename_i hkind
      exact hvariable (Or.inr hkind) h
    · cases h

/-! ## Functions of one statement are apart -/

theorem functionVariables_apart {s : Source} {d : Node} (h : d.isLaidOut = true) :
    (functionVariables s d).Pairwise fun f g => Apart f.function g.function := by
  have hvariables : d.namedChildren.Pairwise fun v w => v ∈ d.children ∧ w ∈ d.children
      ∧ Apart v w := by
    have hall : d.children.Pairwise fun v w => v ∈ d.children ∧ w ∈ d.children ∧ Apart v w :=
      List.Pairwise.imp_of_mem (fun hv hw hvw => ⟨hv, hw, hvw⟩)
        (pairwise_apart (areLaidOut_children h))
    exact hall.filter _
  refine hvariables.filterMap _ ?_
  rintro v w ⟨hv, hw, hvw⟩ f hf g hg
  refine hvw.mono ?_ ?_
  · exact encloses_child (isLaidOut_child h hv) (variableFunction_spec hf).2.1
  · exact encloses_child (isLaidOut_child h hw) (variableFunction_spec hg).2.1

theorem exportedFunctions_apart {s : Source} {e : Node} (h : e.isLaidOut = true) :
    (exportedFunctions s e).Pairwise fun f g => Apart f.function g.function := by
  rw [exportedFunctions]
  split
  · exact List.Pairwise.nil
  · rename_i d hd
    have hlaid : d.isLaidOut = true := isLaidOut_child h (child?_mem hd)
    split
    · cases d.child? .name with
      | none => exact List.Pairwise.nil
      | some name => exact List.pairwise_singleton _ _
    · cases d.child? .name with
      | none => exact List.Pairwise.nil
      | some name => exact List.pairwise_singleton _ _
    · exact functionVariables_apart hlaid
    · exact functionVariables_apart hlaid
    · exact List.Pairwise.nil

/-- At most one function of a statement holds a node that takes up a byte. -/
theorem enclosing_unique {s : Source} {e n : Node} {f g : ExportedFunction}
    (he : e.isLaidOut = true) (hn : n.start < n.stop) (hf : f ∈ exportedFunctions s e)
    (hg : g ∈ exportedFunctions s e) (hfn : f.function.encloses n = true)
    (hgn : g.function.encloses n = true) : f = g := by
  by_contra hne
  have : Std.Symm fun f g : ExportedFunction => Apart f.function g.function :=
    ⟨fun _ _ => Apart.symm⟩
  have hapart : Apart f.function g.function := (exportedFunctions_apart he).forall hf hg hne
  exact (hapart.mono (encloses_refl _) hgn).not_encloses hn hfn

/-- The search by spans finds a function that holds the node. -/
theorem search_eq_some {s : Source} {e n : Node} {f : ExportedFunction} (he : e.isLaidOut = true)
    (hn : n.start < n.stop) (hf : f ∈ exportedFunctions s e)
    (hfn : f.function.encloses n = true) :
    ((exportedFunctions s e).findSome? fun g =>
      if g.function.encloses n then some g.name else none) = some f.name := by
  cases hsearch : (exportedFunctions s e).findSome? fun g =>
      if g.function.encloses n then some g.name else none with
  | none =>
      have hnone := List.findSome?_eq_none_iff.mp hsearch f hf
      rw [if_pos hfn] at hnone
      cases hnone
  | some name =>
      obtain ⟨g, hg, hname⟩ := List.exists_of_findSome?_eq_some hsearch
      by_cases hgn : g.function.encloses n = true
      · rw [if_pos hgn] at hname
        rw [enclosing_unique he hn hf hg hfn hgn, hname]
      · rw [if_neg hgn] at hname
        cases hname

/-! ## Functions around a call -/

/-- An exported function whose span holds a call is on the way from its statement to the call: step
by step from the statement, each node on the way to the function holds the call and is none. -/
theorem Declares.mem_between {e f n : Node} {between outer : List Node} (h : Declares e f)
    (hchain : (n :: between ++ e :: outer).IsChain IsChild) (hcall : n.kind = .callExpression)
    (hn : n.start < n.stop) (hfn : f.encloses n = true) : f ∈ between := by
  -- no declaration, declarator or function is a call, so none of them is the foot of the chain
  have hne : ∀ {d : Node}, d.kind ≠ .callExpression → d ≠ n := by
    rintro d hd rfl
    exact hd hcall
  cases h with
  | declaration hmem hkind =>
      have hf : f ≠ n := hne (by rcases hkind with h | h <;> simp [h])
      obtain ⟨inner, rfl⟩ := child_on_chain hchain hn hmem hfn hf
      exact List.mem_append_right _ List.mem_cons_self
  | @value d v hd hdkind hv hvkind hmem hvalue =>
      obtain ⟨_, _, _, he⟩ := exists_child_of_isChain hchain
      have hdlaid : d.isLaidOut = true := isLaidOut_child he.laidOut hd
      have hvn : v.encloses n = true :=
        encloses_trans (encloses_child (isLaidOut_child hdlaid hv) hmem) hfn
      have hdn : d.encloses n = true := encloses_trans (encloses_child hdlaid hv) hvn
      have hdne : d ≠ n := hne (by rcases hdkind with h | h <;> simp [h])
      obtain ⟨below, rfl⟩ := child_on_chain hchain hn hd hdn hdne
      have hdchain : (n :: below ++ d :: e :: outer).IsChain IsChild := by
        simpa using hchain
      have hvne : v ≠ n := hne (by simp [hvkind])
      obtain ⟨inner, rfl⟩ := child_on_chain hdchain hn hv hvn hvne
      have hvchain : (n :: inner ++ v :: d :: e :: outer).IsChain IsChild := by
        simpa using hdchain
      have hfne : f ≠ n := hne (by intro h; simp [h, isFunctionValue] at hvalue)
      obtain ⟨rest, rfl⟩ := child_on_chain hvchain hn hmem hfn hfne
      simp

/-- The functions of a statement that hold a call by their spans are those on the way to it. -/
theorem encloses_iff_mem_between {s : Source} {e n : Node} {f : ExportedFunction}
    {between outer : List Node} (hf : f ∈ exportedFunctions s e)
    (hchain : (n :: between ++ e :: outer).IsChain IsChild) (hcall : n.kind = .callExpression)
    (hn : n.start < n.stop) : f.function.encloses n = true ↔ f.function ∈ between := by
  constructor
  · exact (declares_of_mem hf).mem_between hchain hcall hn
  · intro hmem
    exact encloses_of_isChain (List.IsChain.left_of_append hchain) (List.mem_cons_of_mem n hmem)

/-- Only one of the functions of a statement is on the way to a call. -/
theorem not_mem_between_of_split {s : Source} {e n : Node} {f g : ExportedFunction}
    {fs gs : List ExportedFunction} {between outer : List Node}
    (hchain : (n :: between ++ e :: outer).IsChain IsChild) (hn : n.start < n.stop)
    (hsplit : exportedFunctions s e = fs ++ f :: gs) (hg : g ∈ fs ++ gs)
    (hf : f.function ∈ between) : g.function ∉ between := by
  intro hgbetween
  obtain ⟨_, _, _, he⟩ := exists_child_of_isChain hchain
  have hencloses : ∀ {m : Node}, m ∈ between → m.encloses n = true := fun hm =>
    encloses_of_isChain (List.IsChain.left_of_append hchain) (List.mem_cons_of_mem n hm)
  have hpairwise := exportedFunctions_apart (s := s) he.laidOut
  rw [hsplit] at hpairwise
  obtain ⟨_, hlast, hfront⟩ := List.pairwise_append.mp hpairwise
  have hapart : Apart f.function g.function := by
    rcases List.mem_append.mp hg with hg | hg
    · exact (hfront g hg f List.mem_cons_self).symm
    · exact (List.pairwise_cons.mp hlast).1 g hg
  exact (hapart.mono (encloses_refl _) (hencloses hgbetween)).not_encloses hn (hencloses hf)

end TaskContract.Analysis
