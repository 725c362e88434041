import TaskContract.Analysis.Models
import TaskContract.Proofs.Script.Tree

/-!
# What names stand for

A script takes `llm` apart with object patterns, and each property of a pattern may bind a name. The
aliases are collected over the whole script in one map, so it is the last property that decides what
a name stands for.

- `Binds`: the four ways in which a property binds a plain name under a plain key.
- `propertyAlias_eq_some_iff`: the alias of a property is the name that it binds, unless the
  property gives a new name and a default at once.
- `TakesApart`: a property of a destructuring, with those that are visited later.
- `lookup_foldl_setAlias`: the map that is collected holds the last value of a name.
- `lookup_aliases_iff`: what a name stands for in a script.
-/

namespace TaskContract.Analysis

open Script Script.Node

/-! ## Names that properties bind -/

/-- A property of an object pattern binds a plain name under a plain key: `p`, `p = default`,
`p: local` and `p: local = default`, in this order. -/
inductive Binds (s : Source) (p : Node) : Text → Text → Prop where
  | shorthand (kind : p.kind = .shorthandPropertyIdentifierPattern) :
      Binds s p (s.nodeText p) (s.nodeText p)
  | withDefault {left : Node} (kind : p.kind = .objectAssignmentPattern)
      (target : p.child? .left = some left)
      (targetKind : left.kind = .shorthandPropertyIdentifierPattern) :
      Binds s p (s.nodeText left) (s.nodeText left)
  | renamed {key value : Node} (kind : p.kind = .pairPattern)
      (under : p.child? .key = some key) (keyKind : key.kind = .propertyIdentifier)
      (target : p.child? .value = some value) (targetKind : value.kind = .identifier) :
      Binds s p (s.nodeText value) (s.nodeText key)
  | renamedWithDefault {key value left : Node} (kind : p.kind = .pairPattern)
      (under : p.child? .key = some key) (keyKind : key.kind = .propertyIdentifier)
      (assigned : p.child? .value = some value) (valueKind : value.kind = .assignmentPattern)
      (target : value.child? .left = some left) (targetKind : left.kind = .identifier) :
      Binds s p (s.nodeText left) (s.nodeText key)

/-- The property gives what it takes a new name and a default at once: `p: local = default`. -/
def IsRenamedDefault (p : Node) : Prop :=
  p.kind = .pairPattern ∧ ∃ value, p.child? .value = some value ∧ value.kind = .assignmentPattern

/-- The alias of a property, with one form left out. -/
theorem propertyAlias_eq_some_iff {s : Source} {p : Node} {name key : Text} :
    propertyAlias? s p = some (name, key) ↔ Binds s p name key ∧ ¬IsRenamedDefault p := by
  constructor
  · intro h
    rw [propertyAlias?] at h
    split at h
    · rename_i hkind
      simp only [Option.some.injEq, Prod.mk.injEq] at h
      obtain ⟨rfl, rfl⟩ := h
      exact ⟨.shorthand hkind, by simp [IsRenamedDefault, hkind]⟩
    · rename_i hkind
      simp only [Option.bind_eq_bind, Option.bind_eq_some_iff, Option.ite_none_right_eq_some,
        Option.some.injEq, Prod.mk.injEq] at h
      obtain ⟨left, hleft, hshort, rfl, rfl⟩ := h
      exact ⟨.withDefault hkind hleft hshort, by simp [IsRenamedDefault, hkind]⟩
    · rename_i hkind
      simp only [Option.bind_eq_bind, Option.bind_eq_some_iff, Option.ite_none_right_eq_some,
        Option.some.injEq, Prod.mk.injEq, Bool.and_eq_true, decide_eq_true_eq] at h
      obtain ⟨k, hk, v, hv, ⟨hproperty, hident⟩, rfl, rfl⟩ := h
      refine ⟨.renamed hkind hk hproperty hv hident, ?_⟩
      simp [IsRenamedDefault, hv, hident]
    · cases h
  · rintro ⟨hbinds, hform⟩
    cases hbinds with
    | shorthand hkind => simp [propertyAlias?, hkind]
    | withDefault hkind hleft hshort => simp [propertyAlias?, hkind, hleft, hshort]
    | renamed hkind hkey hproperty hvalue hident =>
        simp [propertyAlias?, hkind, hkey, hproperty, hvalue, hident]
    | renamedWithDefault hkind hkey hproperty hvalue hassigned =>
        exact absurd ⟨hkind, _, hvalue, hassigned⟩ hform

/-! ## Destructurings -/

structure Destructures (s : Source) (n pattern : Node) : Prop where
  kind : n.kind = .variableDeclarator
  target : n.child? .name = some pattern
  targetKind : pattern.kind = .objectPattern
  initializer : ∃ v, n.child? .value = some v ∧ v.kind = .identifier ∧ s.nodeText v = llmObject

/-- The properties by which a declared variable takes `llm` apart; for any other node none. -/
def llmProperties (s : Source) (n : Node) : List Node :=
  match n.child? .name, n.child? .value with
  | some pattern, some value =>
    if n.kind = .variableDeclarator && pattern.kind = .objectPattern
        && isName s llmObject value then
      pattern.namedChildren
    else []
  | _, _ => []

theorem llmProperties_eq {s : Source} {n pattern : Node} (h : Destructures s n pattern) :
    llmProperties s n = pattern.namedChildren := by
  obtain ⟨hkind, hname, hpattern, value, hvalue, hident, htext⟩ := h
  simp [llmProperties, isName, hkind, hname, hpattern, hvalue, hident, htext]

theorem mem_llmProperties_iff {s : Source} {n p : Node} :
    p ∈ llmProperties s n ↔ ∃ pattern, Destructures s n pattern ∧ p ∈ pattern.namedChildren := by
  constructor
  · intro hp
    rw [llmProperties] at hp
    split at hp
    · rename_i pattern value hname hvalue
      split_ifs at hp with hshape
      · simp only [isName, Bool.and_eq_true, decide_eq_true_eq] at hshape
        obtain ⟨⟨hkind, hpattern⟩, hident, htext⟩ := hshape
        exact ⟨pattern, ⟨hkind, hname, hpattern, value, hvalue, hident, htext⟩, hp⟩
      · cases hp
    · cases hp
  · rintro ⟨pattern, hpattern, hp⟩
    rw [llmProperties_eq hpattern]
    exact hp

theorem declaratorAliases_eq (s : Source) (n : Node) :
    declaratorAliases s n = (llmProperties s n).filterMap (propertyAlias? s) := by
  rw [declaratorAliases, llmProperties]
  split_ifs with hkind
  · cases n.child? .name <;> cases n.child? .value <;> simp [hkind]
  · rw [ne_eq, not_not] at hkind
    cases n.child? .name <;> cases n.child? .value <;> simp [hkind]
    split_ifs <;> simp

/-- The properties by which a script takes `llm` apart, in the order in which they are visited. -/
def destructured (s : Source) (root : Node) : List Node :=
  root.preorder.flatMap (llmProperties s)

/-- A declared variable of a script takes `llm` apart, and one property of its pattern is followed
by others: those behind it in the pattern, then those of the declarations that are visited later. -/
inductive TakesApart (s : Source) (root n p : Node) : List Node → Prop where
  | intro {before after front back : List Node} {pattern : Node}
      (declared : root.preorder = before ++ n :: after) (target : Destructures s n pattern)
      (member : pattern.namedChildren = front ++ p :: back) :
      TakesApart s root n p (back ++ after.flatMap (llmProperties s))

theorem TakesApart.split {s : Source} {root n p : Node} {later : List Node}
    (h : TakesApart s root n p later) : ∃ front, destructured s root = front ++ p :: later := by
  obtain @⟨before, after, front, back, pattern, hdeclared, htarget, hmember⟩ := h
  refine ⟨before.flatMap (llmProperties s) ++ front, ?_⟩
  rw [destructured, hdeclared, List.flatMap_append, List.flatMap_cons, llmProperties_eq htarget,
    hmember, List.append_assoc, List.append_assoc, List.cons_append]

theorem TakesApart.of_mem {s : Source} {root m n p : Node} {later : List Node}
    (h : TakesApart s m n p later) (hm : m ∈ root.preorder) :
    ∃ outer, TakesApart s root n p (later ++ outer) := by
  obtain @⟨before, after, front, back, pattern, hdeclared, htarget, hmember⟩ := h
  obtain ⟨above, below, hroot⟩ := preorder_isInfix hm
  have hdeclared' : root.preorder = (above ++ before) ++ n :: (after ++ below) := by
    rw [← hroot, hdeclared]
    simp
  refine ⟨below.flatMap (llmProperties s), ?_⟩
  rw [List.append_assoc, ← List.flatMap_append]
  exact .intro hdeclared' htarget hmember

theorem flatMap_split {α β : Type} {f : α → List β} {xs : List α} {front later : List β} {y : β}
    (h : xs.flatMap f = front ++ y :: later) : ∃ before x after inner outer,
      xs = before ++ x :: after ∧ f x = inner ++ y :: outer
        ∧ later = outer ++ after.flatMap f := by
  induction xs generalizing front with
  | nil => simp at h
  | cons x rest ih =>
      rw [List.flatMap_cons, List.append_eq_append_iff] at h
      -- the item is among those of `x`, or it comes from one of the rest
      rcases h with ⟨inner, rfl, hrest⟩ | ⟨inner, hx, hitem⟩
      · obtain ⟨before, z, after, front', outer, rfl, hz, hlater⟩ := ih hrest
        exact ⟨x :: before, z, after, front', outer, rfl, hz, hlater⟩
      · cases inner with
        | nil =>
            obtain ⟨before, z, after, front', outer, rfl, hz, hlater⟩ := @ih [] hitem.symm
            exact ⟨x :: before, z, after, front', outer, rfl, hz, hlater⟩
        | cons z outer =>
            obtain ⟨rfl, rfl⟩ := List.cons.inj hitem
            exact ⟨[], x, rest, front, outer, rfl, hx, rfl⟩

theorem exists_takesApart {s : Source} {root p : Node} (front : List Node) {later : List Node}
    (h : destructured s root = front ++ p :: later) :
    ∃ n ∈ root.preorder, TakesApart s root n p later := by
  obtain ⟨before, n, after, inner, outer, hdeclared, hmember, rfl⟩ := flatMap_split h
  have hp : p ∈ llmProperties s n := by
    rw [hmember]
    exact List.mem_append_right _ List.mem_cons_self
  obtain ⟨pattern, htarget, -⟩ := mem_llmProperties_iff.mp hp
  rw [llmProperties_eq htarget] at hmember
  refine ⟨n, ?_, .intro hdeclared htarget hmember⟩
  rw [hdeclared]
  exact List.mem_append_right _ List.mem_cons_self

/-- The last property of a script that binds a name, with its key. -/
def IsLastBinding (s : Source) (root q : Node) (name key : Text) : Prop :=
  ∃ front back, destructured s root = front ++ q :: back ∧ Binds s q name key
    ∧ ∀ r ∈ back, ∀ k, ¬Binds s r name k

theorem exists_last {α : Type} {P : α → Prop} {xs : List α} (h : ∃ x ∈ xs, P x) :
    ∃ front x back, xs = front ++ x :: back ∧ P x ∧ ∀ y ∈ back, ¬P y := by
  induction xs with
  | nil => simp at h
  | cons x rest ih =>
      by_cases hrest : ∃ y ∈ rest, P y
      · obtain ⟨front, y, back, rfl, hy, hback⟩ := ih hrest
        exact ⟨x :: front, y, back, rfl, hy, hback⟩
      · obtain ⟨y, hy, hP⟩ := h
        rcases List.mem_cons.mp hy with rfl | hy
        · exact ⟨[], y, rest, rfl, hP, fun z hz hPz => hrest ⟨z, hz, hPz⟩⟩
        · exact absurd ⟨y, hy, hP⟩ hrest

theorem TakesApart.isLastBinding {s : Source} {root n p : Node} {later : List Node}
    {name key : Text} (h : TakesApart s root n p later) (hbinds : Binds s p name key)
    (hlater : ∀ r ∈ later, ∀ k, ¬Binds s r name k) : IsLastBinding s root p name key := by
  obtain ⟨front, hsplit⟩ := h.split
  exact ⟨front, later, hsplit, hbinds, hlater⟩

/-- Where a name is bound, the last property that binds it is this one or one that is visited
later. -/
theorem TakesApart.exists_isLastBinding {s : Source} {root n p : Node} {later : List Node}
    {name key : Text} (h : TakesApart s root n p later) (hbinds : Binds s p name key) :
    ∃ q provider, IsLastBinding s root q name provider
      ∧ ((∀ r ∈ later, ∀ k, Binds s r name k → k = key) → provider = key) := by
  obtain ⟨front, hsplit⟩ := h.split
  by_cases hlater : ∃ r ∈ later, ∃ k, Binds s r name k
  · obtain ⟨between, q, rest, rfl, ⟨provider, hq⟩, hrest⟩ := exists_last hlater
    refine ⟨q, provider, ⟨front ++ p :: between, rest, ?_, hq, ?_⟩, ?_⟩
    · rw [hsplit, List.append_assoc, List.cons_append]
    · intro r hr k hk
      exact hrest r hr ⟨k, hk⟩
    · intro hkeys
      exact hkeys q (List.mem_append_right _ List.mem_cons_self) provider hq
  · refine ⟨p, key, h.isLastBinding hbinds ?_, fun _ => rfl⟩
    intro r hr k hk
    exact hlater ⟨r, hr, k, hk⟩

/-! ## The map of aliases -/

theorem lookup_cons_eq (a : Alias) (known : List Alias) (name : Text) :
    (a :: known).lookup name = if name = a.1 then some a.2 else known.lookup name := by
  rw [List.lookup_cons]
  split_ifs with hname
  · rw [beq_iff_eq.mpr hname]
  · rw [beq_eq_false_iff_ne.mpr hname]

theorem lookup_replace (known : List Alias) (a : Alias) (name : Text) :
    (known.map fun b => if b.1 = a.1 then a else b).lookup name
      = if name = a.1 ∧ known.any (fun b => b.1 = a.1) = true then some a.2
        else known.lookup name := by
  induction known with
  | nil => simp
  | cons b rest ih =>
      rw [List.map_cons, lookup_cons_eq, ih, lookup_cons_eq, List.any_cons]
      by_cases hb : b.1 = a.1
      · by_cases hname : name = a.1 <;> simp [hb, hname]
      · -- the first alias is another one, and it stays
        rw [if_neg hb, decide_eq_false hb, Bool.false_or]
        by_cases hname : name = b.1
        · have hne : name ≠ a.1 := fun h => hb (hname.symm.trans h)
          rw [if_pos hname, if_neg (fun h => hne h.1), if_pos hname]
        · rw [if_neg hname, if_neg hname]

theorem lookup_setAlias (known : List Alias) (a : Alias) (name : Text) :
    (setAlias known a).lookup name = (a :: known).lookup name := by
  rw [setAlias, lookup_cons_eq]
  split_ifs with hknown hname hname
  · rw [lookup_replace, if_pos ⟨hname, hknown⟩]
  · rw [lookup_replace, if_neg (fun h => hname h.1)]
  · have hnone : known.lookup name = none := by
      rw [List.lookup_eq_none_iff]
      intro b hb
      have hne : b.1 ≠ a.1 := by
        intro h
        exact hknown (List.any_eq_true.mpr ⟨b, hb, decide_eq_true h⟩)
      simp only [hname, hne.symm, bne_iff_ne, ne_eq, not_false_eq_true]
    rw [List.lookup_append, hnone, lookup_cons_eq, if_pos hname, Option.none_or]
  · rw [List.lookup_append, lookup_cons_eq, if_neg hname, List.lookup_nil, Option.or_none]

theorem lookup_foldl_setAlias (known as : List Alias) (name : Text) :
    (as.foldl setAlias known).lookup name = (as.reverse ++ known).lookup name := by
  -- an alias acts as if it were put in front of what has been collected before
  induction as generalizing known with
  | nil => rfl
  | cons a rest ih =>
      rw [List.foldl_cons, ih, List.lookup_append, lookup_setAlias, ← List.lookup_append,
        List.reverse_cons, List.append_assoc, List.singleton_append]

/-- What a name stands for in the aliases of a list of items: the last item that has one decides. -/
theorem lookup_filterMap_iff {α : Type} {f : α → Option Alias} {xs : List α} {name key : Text} :
    (xs.filterMap f).reverse.lookup name = some key ↔ ∃ front x back, xs = front ++ x :: back
      ∧ f x = some (name, key) ∧ ∀ y ∈ back, ∀ k, f y ≠ some (name, k) := by
  have hsome : ∀ x k, ((f x).bind fun a => if name == a.1 then some a.2 else none) = some k
      ↔ f x = some (name, k) := by
    intro x k
    cases f x with
    | none => simp
    | some a =>
        obtain ⟨n, v⟩ := a
        by_cases hname : name = n
        · simp [hname]
        · simp [hname, Ne.symm hname]
  have hnone : ∀ x, ((f x).bind fun a => if name == a.1 then some a.2 else none) = none
      ↔ ∀ k, f x ≠ some (name, k) := by
    intro x
    rw [Option.eq_none_iff_forall_ne_some]
    exact forall_congr' fun k => not_congr (hsome x k)
  rw [List.lookup_eq_findSome?, ← List.getLast?_filterMap, List.filterMap_filterMap,
    List.getLast?_filterMap, List.findSome?_eq_some_iff]
  simp only [hsome, hnone]
  constructor
  · rintro ⟨later, x, earlier, hsplit, hx, hlater⟩
    refine ⟨earlier.reverse, x, later.reverse, ?_, hx, ?_⟩
    · rw [← List.reverse_reverse xs, hsplit]
      simp
    · intro y hy
      exact hlater y (List.mem_reverse.mp hy)
  · rintro ⟨front, x, back, rfl, hx, hback⟩
    refine ⟨back.reverse, x, front.reverse, by simp, hx, ?_⟩
    intro y hy
    exact hback y (List.mem_reverse.mp hy)

theorem aliases_eq (s : Source) (root : Node) :
    aliases s root = ((destructured s root).filterMap (propertyAlias? s)).foldl setAlias [] := by
  rw [aliases, destructured, List.filterMap_flatMap]
  congr 2
  funext n
  exact declaratorAliases_eq s n

/-- What a name stands for: the key of the last property that binds it, where those that give a new
name and a default at once do not count. -/
theorem lookup_aliases_iff {s : Source} {root : Node} {name key : Text} :
    (aliases s root).lookup name = some key ↔ ∃ front p back,
      destructured s root = front ++ p :: back ∧ Binds s p name key ∧ ¬IsRenamedDefault p
        ∧ ∀ q ∈ back, ∀ k, Binds s q name k → IsRenamedDefault q := by
  rw [aliases_eq, lookup_foldl_setAlias, List.append_nil, lookup_filterMap_iff]
  simp only [ne_eq, propertyAlias_eq_some_iff, not_and, not_not, and_assoc]

theorem IsLastBinding.lookup_eq {s : Source} {root q : Node} {name key : Text}
    (h : IsLastBinding s root q name key) (hform : ¬IsRenamedDefault q) :
    (aliases s root).lookup name = some key := by
  obtain ⟨front, back, hsplit, hbinds, hback⟩ := h
  exact lookup_aliases_iff.mpr ⟨front, q, back, hsplit, hbinds, hform,
    fun r hr k hk => absurd hk (hback r hr k)⟩

end TaskContract.Analysis
