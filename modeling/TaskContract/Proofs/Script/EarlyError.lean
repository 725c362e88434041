import Mathlib.Data.List.Flatten
import Mathlib.Data.List.Nodup
import TaskContract.Proofs.Script.Tree
import TaskContract.Script.EarlyError

/-!
# What a module must not hold

The search for early errors keeps a stack, looks upwards for the function around a node and gathers
the names of a scope from its statements. Here it is compared with three rules about trees and with
the ways in which a node can break one of them.

- `ObeysRules`: each `return` is in a function, each `await` whose innermost function is known is in
  an asynchronous one, and no scope declares a name twice.
- `Violates`: a node breaks a rule, with the node that this is reported at and what is said of it.
- `mem_scopeBindings_iff`, `scopeBindings_sublist`: the names that are gathered for a scope are
  those that it declares, in the order of the tree.
- `earlyError_is_first_violation`: the search finds nothing exactly in a tree that obeys the rules,
  and otherwise the first violation from the root on.
-/

namespace TaskContract.Script

open Node

/-! ## Declared names -/

/-- A declaration in a scope of the given kind declares a plain name: as a variable of `let` or
`const`, as a class or, in the whole script only, as a function. -/
inductive DeclaresName (scope : Kind) (d : Node) : Node → Prop where
  | lexical {v name : Node} (kind : d.kind = .lexicalDeclaration) (mem : v ∈ d.children)
      (declarator : v.kind = .variableDeclarator) (target : v.child? .name = some name)
      (plain : name.kind = .identifier) : DeclaresName scope d name
  | ofClass {name : Node} (kind : d.kind = .classDeclaration)
      (target : d.child? .name = some name) : DeclaresName scope d name
  | ofFunction {name : Node} (outermost : scope = .program)
      (kind : d.kind = .functionDeclaration ∨ d.kind = .generatorFunctionDeclaration)
      (target : d.child? .name = some name) : DeclaresName scope d name

/-- A scope declares a name by one of its own statements, be it exported or not. -/
inductive BindsName (scope name : Node) : Prop where
  | plain {d : Node} (mem : d ∈ scope.children) (declares : DeclaresName scope.kind d name)
  | exported {e d : Node} (mem : e ∈ scope.children) (kind : e.kind = .exportStatement)
      (target : e.child? .declaration = some d) (declares : DeclaresName scope.kind d name)

theorem mem_namedChildren {n c : Node} :
    c ∈ n.namedChildren ↔ c ∈ n.children ∧ c.kind.isNamed = true := by
  rw [namedChildren, List.mem_filter]

theorem DeclaresName.isNamed {scope : Kind} {d name : Node} (h : DeclaresName scope d name) :
    d.kind.isNamed = true ∧ d.kind ≠ .exportStatement := by
  cases h with
  | lexical kind => simp [kind, Kind.isNamed]
  | ofClass kind => simp [kind, Kind.isNamed]
  | ofFunction _ kind => rcases kind with kind | kind <;> simp [kind, Kind.isNamed]

theorem mem_variableNames_iff {d name : Node} :
    name ∈ variableNames d ↔ ∃ v ∈ d.children, v.kind = .variableDeclarator
      ∧ v.child? .name = some name ∧ name.kind = .identifier := by
  rw [variableNames, List.mem_filterMap]
  constructor
  · rintro ⟨v, hv, hname⟩
    split at hname
    · rename_i hkind
      obtain ⟨htarget, hplain⟩ := Option.filter_eq_some_iff.mp hname
      exact ⟨v, (mem_namedChildren.mp hv).1, hkind, htarget, by simpa using hplain⟩
    · cases hname
  · rintro ⟨v, hv, hkind, htarget, hplain⟩
    refine ⟨v, mem_namedChildren.mpr ⟨hv, by simp [hkind, Kind.isNamed]⟩, ?_⟩
    rw [if_pos hkind, Option.filter_eq_some_iff]
    exact ⟨htarget, by simpa using hplain⟩

def declarationOf (statement : Node) : Option Node :=
  if statement.kind = .exportStatement then statement.child? .declaration else some statement

def declarationNames (scope : Kind) (d : Node) : List Node :=
  match d.kind with
  | .lexicalDeclaration => variableNames d
  | .classDeclaration => (d.child? .name).toList
  | .functionDeclaration | .generatorFunctionDeclaration =>
    if scope = .program then (d.child? .name).toList else []
  | _ => []

theorem statementBindings_eq (scope : Kind) (statement : Node) :
    statementBindings scope statement
      = (declarationOf statement).toList.flatMap (declarationNames scope) := by
  unfold statementBindings declarationOf
  dsimp only
  cases if statement.kind = .exportStatement then statement.child? .declaration
    else some statement with
  | none => rfl
  | some d =>
      rw [Option.toList_some, List.flatMap_singleton]
      rfl

theorem mem_declarationNames_iff {scope : Kind} {d name : Node} :
    name ∈ declarationNames scope d ↔ DeclaresName scope d name := by
  have hfunction : name ∈ (if scope = .program then (d.child? .name).toList else [])
      ↔ scope = .program ∧ d.child? .name = some name := by
    by_cases hscope : scope = .program <;> simp [hscope]
  constructor
  · intro h
    rw [declarationNames] at h
    split at h
    · rename_i hkind
      obtain ⟨v, hv, hdeclarator, htarget, hplain⟩ := mem_variableNames_iff.mp h
      exact .lexical hkind hv hdeclarator htarget hplain
    · rename_i hkind
      exact .ofClass hkind (Option.mem_toList.mp h)
    · rename_i hkind
      exact .ofFunction (hfunction.mp h).1 (Or.inl hkind) (hfunction.mp h).2
    · rename_i hkind
      exact .ofFunction (hfunction.mp h).1 (Or.inr hkind) (hfunction.mp h).2
    · cases h
  · intro h
    rw [declarationNames]
    cases h with
    | lexical kind mem declarator target plain =>
        rw [kind]
        exact mem_variableNames_iff.mpr ⟨_, mem, declarator, target, plain⟩
    | ofClass kind target =>
        rw [kind]
        exact Option.mem_toList.mpr target
    | ofFunction outermost kind target =>
        rcases kind with kind | kind
        · rw [kind]
          exact hfunction.mpr ⟨outermost, target⟩
        · rw [kind]
          exact hfunction.mpr ⟨outermost, target⟩

/-- The names gathered for a scope are those that it declares. -/
theorem mem_scopeBindings_iff {scope name : Node} :
    name ∈ scopeBindings scope ↔ BindsName scope name := by
  simp only [scopeBindings, List.mem_flatMap, statementBindings_eq, Option.mem_toList,
    mem_declarationNames_iff, mem_namedChildren]
  constructor
  · rintro ⟨statement, ⟨hmem, _⟩, d, hd, hdeclares⟩
    rw [declarationOf] at hd
    split at hd
    · rename_i hkind
      exact .exported hmem hkind hd hdeclares
    · obtain rfl := Option.some.inj hd
      exact .plain hmem hdeclares
  · rintro (⟨hmem, hdeclares⟩ | ⟨hmem, hkind, htarget, hdeclares⟩)
    · obtain ⟨hnamed, hkind⟩ := hdeclares.isNamed
      exact ⟨_, ⟨hmem, hnamed⟩, _, if_neg hkind, hdeclares⟩
    · exact ⟨_, ⟨hmem, by simp [hkind, Kind.isNamed]⟩, _, (if_pos hkind).trans htarget, hdeclares⟩

/-! ## Their order -/

theorem sublist_preorder_of_child {n c : Node} (h : c ∈ n.children) :
    c.preorder.Sublist n.preorder :=
  (preorder_isInfix (mem_preorder_of_child (self_mem_preorder n) h)).sublist

theorem child_sublist_preorder {n : Node} (r : Role) :
    (n.child? r).toList.Sublist n.preorder := by
  cases hchild : n.child? r with
  | none => exact List.nil_sublist _
  | some c =>
      refine List.Sublist.trans ?_ (sublist_preorder_of_child (child?_mem hchild))
      rw [preorder_eq c]
      exact (List.nil_sublist _).cons_cons c

/-- What is gathered child by child comes in the order of the tree. -/
theorem flatMap_namedChildren_sublist {n : Node} {f : Node → List Node}
    (h : ∀ c ∈ n.namedChildren, (f c).Sublist c.preorder) :
    (n.namedChildren.flatMap f).Sublist n.preorder := by
  have hall : (n.namedChildren.flatMap f).Sublist (n.namedChildren.flatMap preorder) :=
    List.Sublist.flatMap_right _ h
  have hnamed : (n.namedChildren.flatMap preorder).Sublist (n.children.flatMap preorder) :=
    List.Sublist.flatMap List.filter_sublist preorder
  rw [preorder_eq n]
  exact (hall.trans hnamed).cons n

theorem variableNames_sublist (d : Node) : (variableNames d).Sublist d.preorder := by
  rw [variableNames, List.filterMap_eq_flatMap_toList]
  refine flatMap_namedChildren_sublist ?_
  intro v _
  split
  · refine List.Sublist.trans ?_ (child_sublist_preorder .name)
    cases v.child? .name with
    | none => exact List.nil_sublist _
    | some name =>
        rw [Option.filter_some]
        split
        · exact List.Sublist.refl _
        · exact List.nil_sublist _
  · exact List.nil_sublist _

theorem declarationNames_sublist (scope : Kind) (d : Node) :
    (declarationNames scope d).Sublist d.preorder := by
  have hfunction : (if scope = .program then (d.child? .name).toList else []).Sublist
      d.preorder := by
    split
    · exact child_sublist_preorder .name
    · exact List.nil_sublist _
  rw [declarationNames]
  split
  · exact variableNames_sublist d
  · exact child_sublist_preorder .name
  · exact hfunction
  · exact hfunction
  · exact List.nil_sublist _

/-- The names of a scope come in the order of the tree. -/
theorem scopeBindings_sublist (scope : Node) : (scopeBindings scope).Sublist scope.preorder := by
  refine flatMap_namedChildren_sublist ?_
  intro statement _
  rw [statementBindings_eq, declarationOf]
  split
  · cases hd : statement.child? .declaration with
    | none => exact List.nil_sublist _
    | some d =>
        rw [Option.toList_some, List.flatMap_singleton]
        exact (declarationNames_sublist _ d).trans (sublist_preorder_of_child (child?_mem hd))
  · rw [Option.toList_some, List.flatMap_singleton]
    exact declarationNames_sublist _ statement

/-! ## Repeated names -/

section

variable {s : Source}

theorem firstRepeated_eq_none_iff {seen : List Text} {names : List Node} :
    firstRepeated? s seen names = none
      ↔ (names.map s.nodeText).Nodup ∧ ∀ n ∈ names, s.nodeText n ∉ seen := by
  induction names generalizing seen with
  | nil => simp [firstRepeated?]
  | cons n rest ih =>
      rw [firstRepeated?]
      by_cases hseen : s.nodeText n ∈ seen
      · simp [hseen]
      · simp only [List.contains_eq_mem, hseen, decide_false, Bool.false_eq_true, if_false, ih,
          List.map_cons, List.nodup_cons, List.mem_map, List.mem_cons, not_or, forall_eq_or_imp,
          not_false_eq_true, true_and]
        constructor
        · rintro ⟨hnodup, hall⟩
          refine ⟨⟨?_, hnodup⟩, fun m hm => (hall m hm).2⟩
          rintro ⟨m, hm, hsame⟩
          exact (hall m hm).1 hsame
        · rintro ⟨⟨hnew, hnodup⟩, hall⟩
          exact ⟨hnodup, fun m hm => ⟨fun hsame => hnew ⟨m, hm, hsame⟩, hall m hm⟩⟩

/-- The name that is found is the first that repeats an earlier one. -/
theorem firstRepeated_eq_some_iff {seen : List Text} {names : List Node} {n : Node} :
    firstRepeated? s seen names = some n ↔ ∃ front back, names = front ++ n :: back
      ∧ (s.nodeText n ∈ seen ∨ s.nodeText n ∈ front.map s.nodeText)
      ∧ firstRepeated? s seen front = none := by
  induction names generalizing seen with
  | nil => simp [firstRepeated?]
  | cons m rest ih =>
      rw [firstRepeated?]
      by_cases hseen : s.nodeText m ∈ seen
      -- the head repeats a name, so no longer front is free of repetitions
      · simp only [List.contains_eq_mem, hseen, decide_true, if_true]
        constructor
        · rintro ⟨rfl⟩
          exact ⟨[], rest, rfl, Or.inl hseen, rfl⟩
        · rintro ⟨front, back, hsplit, -, hfront⟩
          cases front with
          | nil => exact congrArg some (List.cons.inj hsplit).1
          | cons m' front =>
              obtain rfl := (List.cons.inj hsplit).1
              exact absurd hseen ((firstRepeated_eq_none_iff.mp hfront).2 m List.mem_cons_self)
      · simp only [List.contains_eq_mem, hseen, decide_false, Bool.false_eq_true, if_false, ih]
        constructor
        · rintro ⟨front, back, rfl, hrepeats, hfront⟩
          refine ⟨m :: front, back, rfl, ?_, ?_⟩
          · simpa [or_assoc, or_left_comm, eq_comm] using hrepeats
          · simpa [firstRepeated?, hseen] using hfront
        · rintro ⟨front, back, hsplit, hrepeats, hfront⟩
          cases front with
          | nil =>
              obtain rfl := (List.cons.inj hsplit).1
              exact absurd hrepeats (by simpa using hseen)
          | cons m' front =>
              obtain ⟨rfl, rfl⟩ := List.cons.inj hsplit
              refine ⟨front, back, rfl, ?_, ?_⟩
              · simpa [or_assoc, or_left_comm, eq_comm] using hrepeats
              · simpa [firstRepeated?, hseen] using hfront

end

/-! ## The rules -/

def IsInnermostFunction (o : Occurrence) (f : Node) : Prop :=
  isFunction f.kind = true ∧ ∃ inner outer, o.ancestors = inner ++ f :: outer
    ∧ ∀ n ∈ inner, isFunction n.kind = false

structure ObeysRules (s : Source) (root : Node) : Prop where
  returns : ∀ o ∈ occurrencesUnder [] root, o.node.kind = .returnStatement →
    ∃ f ∈ o.ancestors, isFunction f.kind = true
  awaits : ∀ o ∈ occurrencesUnder [] root, o.node.kind = .awaitExpression →
    ∀ f, IsInnermostFunction o f → ∃ c ∈ f.children, c.kind = .token "async"
  names : ∀ o ∈ occurrencesUnder [] root, isBlockScope o.node.kind = true →
    ((scopeBindings o.node).map s.nodeText).Nodup

/-- A node breaks a rule. It is reported at a node, a scope at the first of its names that repeats
an earlier one, and with a diagnostic. -/
inductive Violates (s : Source) (o : Occurrence) : Node → Text → Prop where
  | outsideFunction (kind : o.node.kind = .returnStatement)
      (outside : ∀ f ∈ o.ancestors, isFunction f.kind = false) :
      Violates s o o.node (Text.ofString "'return' outside of function")
  | outsideAsync {f : Node} (kind : o.node.kind = .awaitExpression)
      (innermost : IsInnermostFunction o f) (plain : ∀ c ∈ f.children, c.kind ≠ .token "async") :
      Violates s o o.node (Text.ofString "'await' is only allowed within async functions")
  | repeated {front back : List Node} {name : Node} (kind : isBlockScope o.node.kind = true)
      (names : scopeBindings o.node = front ++ name :: back)
      (repeats : s.nodeText name ∈ front.map s.nodeText) (first : (front.map s.nodeText).Nodup) :
      Violates s o name (Text.ofString "Identifier '" ++ s.nodeText name
        ++ Text.ofString "' has already been declared")

def EarlyError.report (e : EarlyError) : Node × Text :=
  (e.node, e.kind.message)

theorem within_eq_some_iff {o : Occurrence} {f : Node} :
    o.within? isFunction = some f ↔ IsInnermostFunction o f := by
  rw [Occurrence.within?, List.find?_eq_some_iff_append, IsInnermostFunction]
  simp

theorem within_isNone_iff {o : Occurrence} :
    (o.within? isFunction).isNone = true ↔ ∀ f ∈ o.ancestors, isFunction f.kind = false := by
  rw [Option.isNone_iff_eq_none, Occurrence.within?, List.find?_eq_none]
  simp

theorem isAsync_iff {f : Node} :
    isAsync f = true ↔ ∃ c ∈ f.children, c.kind = .token "async" := by
  simp [isAsync, hasToken]

section

variable {s : Source} {o : Occurrence}

theorem report_of_return (h : o.node.kind = .returnStatement) {node : Node} {diagnostic : Text} :
    (earlyErrorAt? s o).map EarlyError.report = some (node, diagnostic)
      ↔ (∀ f ∈ o.ancestors, isFunction f.kind = false) ∧ o.node = node
        ∧ Text.ofString "'return' outside of function" = diagnostic := by
  rw [← within_isNone_iff, earlyErrorAt?, h]
  cases o.within? isFunction with
  | none => simp [EarlyError.report, EarlyErrorKind.message]
  | some f => simp

theorem report_of_await (h : o.node.kind = .awaitExpression) {node : Node} {diagnostic : Text} :
    (earlyErrorAt? s o).map EarlyError.report = some (node, diagnostic)
      ↔ (∃ f, IsInnermostFunction o f ∧ isAsync f = false) ∧ o.node = node
        ∧ Text.ofString "'await' is only allowed within async functions" = diagnostic := by
  simp only [← within_eq_some_iff, earlyErrorAt?, h]
  cases o.within? isFunction with
  | none => simp
  | some f => cases hasync : isAsync f <;> simp [hasync, EarlyError.report, EarlyErrorKind.message]

theorem report_of_scope (h : isBlockScope o.node.kind = true) {node : Node} {diagnostic : Text} :
    (earlyErrorAt? s o).map EarlyError.report = some (node, diagnostic)
      ↔ firstRepeated? s [] (scopeBindings o.node) = some node
        ∧ Text.ofString "Identifier '" ++ s.nodeText node
          ++ Text.ofString "' has already been declared" = diagnostic := by
  have hat : earlyErrorAt? s o = (firstRepeated? s [] (scopeBindings o.node)).map fun n =>
      ⟨.duplicate (s.nodeText n), n⟩ := by
    rw [earlyErrorAt?]
    split
    · rename_i hkind
      rw [hkind] at h
      cases h
    · rename_i hkind
      rw [hkind] at h
      cases h
    · rw [if_pos h]
  rw [hat]
  cases firstRepeated? s [] (scopeBindings o.node) with
  | none => simp
  | some n =>
      simp only [Option.map_some, EarlyError.report, EarlyErrorKind.message, Option.some.injEq,
        Prod.mk.injEq]
      exact and_congr_right fun hn => by rw [hn]

theorem report_of_other (hreturn : o.node.kind ≠ .returnStatement)
    (hawait : o.node.kind ≠ .awaitExpression) (hscope : isBlockScope o.node.kind = false) :
    earlyErrorAt? s o = none := by
  rw [earlyErrorAt?]
  split
  · rename_i hkind
    exact absurd hkind hreturn
  · rename_i hkind
    exact absurd hkind hawait
  · rw [hscope]
    rfl

theorem violates_of_firstRepeated (h : isBlockScope o.node.kind = true) {name : Node}
    (hfirst : firstRepeated? s [] (scopeBindings o.node) = some name) :
    Violates s o name (Text.ofString "Identifier '" ++ s.nodeText name
      ++ Text.ofString "' has already been declared") := by
  obtain ⟨front, back, hnames, hrepeats, hfront⟩ := firstRepeated_eq_some_iff.mp hfirst
  exact .repeated h hnames (hrepeats.resolve_left List.not_mem_nil)
    (firstRepeated_eq_none_iff.mp hfront).1

/-- What is checked at a node is whether it breaks a rule. -/
theorem report_eq_some_iff {node : Node} {diagnostic : Text} :
    (earlyErrorAt? s o).map EarlyError.report = some (node, diagnostic)
      ↔ Violates s o node diagnostic := by
  constructor
  · intro h
    by_cases hreturn : o.node.kind = .returnStatement
    · obtain ⟨houtside, rfl, rfl⟩ := (report_of_return hreturn).mp h
      exact .outsideFunction hreturn houtside
    by_cases hawait : o.node.kind = .awaitExpression
    · obtain ⟨⟨f, hf, hasync⟩, rfl, rfl⟩ := (report_of_await hawait).mp h
      refine .outsideAsync hawait hf ?_
      intro c hc hkind
      rw [isAsync_iff.mpr ⟨c, hc, hkind⟩] at hasync
      cases hasync
    -- what is neither of the two is checked as a scope or not at all
    cases hscope : isBlockScope o.node.kind with
    | false =>
        rw [report_of_other hreturn hawait hscope] at h
        cases h
    | true =>
        obtain ⟨hfirst, rfl⟩ := (report_of_scope hscope).mp h
        exact violates_of_firstRepeated hscope hfirst
  · intro h
    cases h with
    | outsideFunction kind outside => exact (report_of_return kind).mpr ⟨outside, rfl, rfl⟩
    | outsideAsync kind innermost plain =>
        refine (report_of_await kind).mpr ⟨⟨_, innermost, ?_⟩, rfl, rfl⟩
        rw [Bool.eq_false_iff]
        intro hasync
        obtain ⟨c, hc, hkind⟩ := isAsync_iff.mp hasync
        exact plain c hc hkind
    | repeated kind names repeats first =>
        refine (report_of_scope kind).mpr ⟨?_, rfl⟩
        refine firstRepeated_eq_some_iff.mpr ⟨_, _, names, Or.inr repeats, ?_⟩
        exact firstRepeated_eq_none_iff.mpr ⟨first, fun _ _ => List.not_mem_nil⟩

theorem earlyErrorAt_eq_none_iff :
    earlyErrorAt? s o = none ↔ ∀ node diagnostic, ¬Violates s o node diagnostic := by
  simp only [← report_eq_some_iff]
  cases earlyErrorAt? s o with
  | none => simp
  | some e => simp [EarlyError.report]

end

theorem obeysRules_iff {s : Source} {root : Node} : ObeysRules s root
    ↔ ∀ o ∈ occurrencesUnder [] root, ∀ node diagnostic, ¬Violates s o node diagnostic := by
  constructor
  · rintro h o ho node diagnostic
      (⟨kind, outside⟩ | ⟨kind, innermost, plain⟩ | ⟨kind, names, repeats⟩)
    · obtain ⟨f, hf, hfunction⟩ := h.returns o ho kind
      rw [outside f hf] at hfunction
      cases hfunction
    · obtain ⟨c, hc, hasync⟩ := h.awaits o ho kind _ innermost
      exact plain c hc hasync
    · -- a name that repeats one in front of it stands in the middle of the names
      have hnodup := h.names o ho kind
      rw [names, List.map_append, List.map_cons, List.nodup_middle, List.nodup_cons] at hnodup
      exact hnodup.1 (List.mem_append_left _ repeats)
  · intro h
    refine ⟨?returns, ?awaits, ?names⟩
    case returns =>
      intro o ho hkind
      by_contra hnone
      push Not at hnone
      exact h o ho _ _ (.outsideFunction hkind fun f hf => Bool.eq_false_iff.mpr (hnone f hf))
    case awaits =>
      intro o ho hkind f hf
      by_contra hnone
      push Not at hnone
      exact h o ho _ _ (.outsideAsync hkind hf hnone)
    case names =>
      intro o ho hkind
      cases hfirst : firstRepeated? s [] (scopeBindings o.node) with
      | none => exact (firstRepeated_eq_none_iff.mp hfirst).1
      | some name => exact absurd (violates_of_firstRepeated hkind hfirst) (h o ho name _)

/-- **An early error is the first violation of a rule.** None is found exactly in a tree that obeys
the rules. What is found otherwise is the violation, with its own diagnostic, of the first node that
breaks a rule, a parent before its children; and the names of a scope are those that it declares, in
the order of the tree. -/
theorem earlyError_is_first_violation (s : Source) (root : Node) :
    (earlyError? s root = none ↔ ObeysRules s root)
      ∧ (∀ node diagnostic, (earlyError? s root).map EarlyError.report = some (node, diagnostic)
        ↔ ∃ before o after, occurrencesUnder [] root = before ++ o :: after
          ∧ Violates s o node diagnostic
          ∧ ∀ p ∈ before, ∀ node' diagnostic', ¬Violates s p node' diagnostic')
      ∧ (∀ scope name, name ∈ scopeBindings scope ↔ BindsName scope name)
      ∧ ∀ scope, (scopeBindings scope).Sublist scope.preorder := by
  rw [earlyError?, occurrences_eq]
  refine ⟨?none, ?first, fun _ _ => mem_scopeBindings_iff, scopeBindings_sublist⟩
  case none =>
    rw [List.findSome?_eq_none_iff, obeysRules_iff]
    exact forall₂_congr fun o _ => earlyErrorAt_eq_none_iff
  case first =>
    intro node diagnostic
    simp only [Option.map_eq_some_iff, List.findSome?_eq_some_iff, ← report_eq_some_iff,
      earlyErrorAt_eq_none_iff]
    constructor
    · rintro ⟨e, ⟨before, o, after, hsplit, hat, hbefore⟩, hreport⟩
      exact ⟨before, o, after, hsplit, ⟨e, hat, hreport⟩, hbefore⟩
    · rintro ⟨before, o, after, hsplit, ⟨e, hat, hreport⟩, hbefore⟩
      exact ⟨e, ⟨before, o, after, hsplit, hat, hbefore⟩, hreport⟩

end TaskContract.Script
