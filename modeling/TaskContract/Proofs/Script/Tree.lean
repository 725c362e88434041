import Mathlib.Data.List.Chain
import Mathlib.Data.List.Pairwise
import TaskContract.Script.Occurrence

/-!
# Walks and layout of syntax trees

- `occurrences_eq`: the walk with a stack finds the nodes that the recursion over the tree finds, in
  the same order and with the same ancestors.
- `preorder_eq`, `preorder_isInfix`: a node comes before its children, and what is below it stands
  together.
- `isLaidOut`: children lie in the span of their parent and follow one another without overlap.
- `Apart`: spans that share no byte. Siblings are apart (`apart_of_siblings`), and so is what lies
  in them (`Apart.mono`).
- The ancestors of an occurrence are a chain of children (`isChain_of_mem_occurrences`), and a child
  whose span holds the node is on that chain (`child_on_chain`). This is what makes a test of spans
  as good as a look at the path.
-/

namespace TaskContract.Script

namespace Node

/-! ## Equality of nodes -/

mutual

def decEq : (m n : Node) → Decidable (m = n)
  | mk kind role start stop children, mk kind' role' start' stop' children' =>
    match decEqAll children children' with
    | isTrue h =>
      decidable_of_iff (kind = kind' ∧ role = role' ∧ start = start' ∧ stop = stop')
        (by simp [h])
    | isFalse h => isFalse (by simp [h])

def decEqAll : (ms ns : List Node) → Decidable (ms = ns)
  | [], [] => isTrue rfl
  | [], _ :: _ | _ :: _, [] => isFalse (by simp)
  | m :: ms, n :: ns =>
    match decEq m n, decEqAll ms ns with
    | isTrue hm, isTrue hms => isTrue (by rw [hm, hms])
    | isFalse hm, _ => isFalse (by simp [hm])
    | _, isFalse hms => isFalse (by simp [hms])

end

/-- Nodes are compared with all they hold. A node knows its span, so that equal nodes of a laid out
tree are one node unless they are empty. -/
instance : DecidableEq Node := decEq

/-! ## The walk is the recursion over the tree -/

mutual

/-- The node and all below it with their ancestors, given those of the node. -/
def occurrencesUnder (ancestors : List Node) : Node → List Occurrence
  | mk kind role start stop children =>
    ⟨mk kind role start stop children, ancestors⟩
      :: occurrencesAll (mk kind role start stop children :: ancestors) children

def occurrencesAll (ancestors : List Node) : List Node → List Occurrence
  | [] => []
  | n :: rest => occurrencesUnder ancestors n ++ occurrencesAll ancestors rest

end

end Node

namespace Occurrence

open Node (occurrencesUnder occurrencesAll)

theorem walk_nil : walk [] = [] := by rw [walk]

mutual

/-- The walk goes through the whole tree on top of the stack before it goes on. -/
theorem walk_cons (ancestors : List Node) (stack : List Occurrence) :
    ∀ n : Node, walk (⟨n, ancestors⟩ :: stack) = occurrencesUnder ancestors n ++ walk stack
  | .mk kind role start stop children => by
      rw [walk, occurrencesUnder, List.cons_append]
      congr 1
      exact walk_children (.mk kind role start stop children :: ancestors) stack children

theorem walk_children (ancestors : List Node) (stack : List Occurrence) :
    ∀ ns : List Node, walk (ns.map (fun c => ⟨c, ancestors⟩) ++ stack)
      = occurrencesAll ancestors ns ++ walk stack
  | [] => by rw [occurrencesAll]; rfl
  | n :: rest => by
      rw [List.map_cons, List.cons_append, walk_cons ancestors _ n,
        walk_children ancestors stack rest, occurrencesAll, List.append_assoc]

end

end Occurrence

namespace Node

theorem occurrences_eq (root : Node) : root.occurrences = occurrencesUnder [] root := by
  rw [occurrences, Occurrence.walk_cons, Occurrence.walk_nil, List.append_nil]

mutual

/-- What is above a node of the tree, up to the top of it, is in the tree. -/
theorem mem_under_of_ancestor {o : Occurrence} {m : Node} {ancestors : List Node} :
    ∀ {n : Node}, o ∈ occurrencesUnder ancestors n → m ∈ o.ancestors →
      m ∈ ancestors ∨ m ∈ (occurrencesUnder ancestors n).map Occurrence.node
  | mk kind role start stop children, ho, hm => by
      rw [occurrencesUnder] at ho ⊢
      rcases List.mem_cons.mp ho with rfl | ho
      · exact Or.inl hm
      · rw [List.map_cons, List.mem_cons]
        rcases mem_all_of_ancestor ho hm with hm | hm
        · rcases List.mem_cons.mp hm with rfl | hm
          · exact Or.inr (Or.inl rfl)
          · exact Or.inl hm
        · exact Or.inr (Or.inr hm)

theorem mem_all_of_ancestor {o : Occurrence} {m : Node} {ancestors : List Node} :
    ∀ {ns : List Node}, o ∈ occurrencesAll ancestors ns → m ∈ o.ancestors →
      m ∈ ancestors ∨ m ∈ (occurrencesAll ancestors ns).map Occurrence.node
  | [], ho, _ => by
      rw [occurrencesAll] at ho
      cases ho
  | n :: rest, ho, hm => by
      rw [occurrencesAll] at ho ⊢
      rw [List.map_append, List.mem_append]
      rcases List.mem_append.mp ho with ho | ho
      · exact (mem_under_of_ancestor ho hm).imp_right Or.inl
      · exact (mem_all_of_ancestor ho hm).imp_right Or.inr

end

theorem mem_preorder_of_ancestor {root m : Node} {o : Occurrence} (ho : o ∈ root.occurrences)
    (hm : m ∈ o.ancestors) : m ∈ root.preorder := by
  rw [preorder, occurrences_eq]
  rw [occurrences_eq] at ho
  exact (mem_under_of_ancestor ho hm).resolve_left List.not_mem_nil

mutual

/-- Which nodes the recursion comes to has nothing to do with what is above them. -/
theorem map_node_under (above above' : List Node) :
    ∀ n : Node, (occurrencesUnder above n).map Occurrence.node
      = (occurrencesUnder above' n).map Occurrence.node
  | mk kind role start stop children => by
      rw [occurrencesUnder, occurrencesUnder, List.map_cons, List.map_cons]
      congr 1
      exact map_node_all _ _ children

theorem map_node_all (above above' : List Node) :
    ∀ ns : List Node, (occurrencesAll above ns).map Occurrence.node
      = (occurrencesAll above' ns).map Occurrence.node
  | [] => by rw [occurrencesAll, occurrencesAll]
  | n :: rest => by
      rw [occurrencesAll, occurrencesAll, List.map_append, List.map_append,
        map_node_under above above' n, map_node_all above above' rest]

end

theorem map_node_all_eq (above : List Node) (ns : List Node) :
    (occurrencesAll above ns).map Occurrence.node = ns.flatMap preorder := by
  induction ns with
  | nil => rw [occurrencesAll]; rfl
  | cons n rest ih =>
      rw [occurrencesAll, List.map_append, ih, List.flatMap_cons, preorder, occurrences_eq,
        map_node_under above []]

/-- A node comes before its children, and these in their order. -/
theorem preorder_eq (n : Node) : n.preorder = n :: n.children.flatMap preorder := by
  obtain ⟨kind, role, start, stop, children⟩ := n
  rw [preorder, occurrences_eq, occurrencesUnder, List.map_cons, map_node_all_eq]
  rfl

theorem self_mem_preorder (n : Node) : n ∈ n.preorder := by
  rw [preorder_eq]
  exact List.mem_cons_self

mutual

/-- What is below a node of the tree stands together in the order of the tree. -/
theorem preorder_isInfix {m : Node} : ∀ {n : Node}, m ∈ n.preorder → m.preorder <:+: n.preorder
  | mk kind role start stop children, hm => by
      rw [preorder_eq] at hm
      rcases List.mem_cons.mp hm with rfl | hm
      · exact List.infix_rfl
      · rw [preorder_eq (mk kind role start stop children)]
        exact (preorders_isInfix hm).trans (List.suffix_cons _ _).isInfix

theorem preorders_isInfix {m : Node} :
    ∀ {ns : List Node}, m ∈ ns.flatMap preorder → m.preorder <:+: ns.flatMap preorder
  | [], hm => by cases hm
  | n :: rest, hm => by
      rw [List.flatMap_cons] at hm ⊢
      rcases List.mem_append.mp hm with hm | hm
      · exact (preorder_isInfix hm).trans (List.prefix_append _ _).isInfix
      · exact (preorders_isInfix hm).trans (List.suffix_append _ _).isInfix

end

theorem mem_preorder_of_child {root n c : Node} (hn : n ∈ root.preorder) (hc : c ∈ n.children) :
    c ∈ root.preorder := by
  apply (preorder_isInfix hn).subset
  rw [preorder_eq]
  exact List.mem_cons_of_mem n (List.mem_flatMap.mpr ⟨c, hc, self_mem_preorder c⟩)

/-! ## Spans -/

mutual

/-- Do the spans of the tree fit together? The children lie in the span of their parent and follow
one another without overlap, and a call takes up at least one byte. -/
def isLaidOut : Node → Bool
  | mk kind _ start stop children =>
    (kind ≠ .callExpression || start < stop) && areLaidOut start stop children

/-- Do the nodes follow one another without overlap between two offsets? -/
def areLaidOut (start stop : Nat) : List Node → Bool
  | [] => start ≤ stop
  | n :: rest => start ≤ n.start && n.isLaidOut && areLaidOut n.stop stop rest

end

theorem areLaidOut_children {n : Node} (h : n.isLaidOut = true) :
    areLaidOut n.start n.stop n.children = true := by
  cases n
  rw [isLaidOut, Bool.and_eq_true] at h
  exact h.2

theorem start_lt_stop_of_call {n : Node} (h : n.isLaidOut = true)
    (hcall : n.kind = .callExpression) : n.start < n.stop := by
  obtain ⟨kind, role, start, stop, children⟩ := n
  obtain rfl : kind = .callExpression := hcall
  rw [isLaidOut, Bool.and_eq_true] at h
  simpa [Node.start, Node.stop] using h.1

theorem areLaidOut_cons {start stop : Nat} {n : Node} {rest : List Node} :
    areLaidOut start stop (n :: rest) = true ↔
      start ≤ n.start ∧ n.isLaidOut = true ∧ areLaidOut n.stop stop rest = true := by
  simp [areLaidOut, and_assoc]

mutual

theorem start_le_stop : ∀ {n : Node}, n.isLaidOut = true → n.start ≤ n.stop
  | mk _ _ _ _ _, h => areLaidOut_le (areLaidOut_children h)

theorem areLaidOut_le : ∀ {start stop : Nat} {ns : List Node},
    areLaidOut start stop ns = true → start ≤ stop
  | _, _, [], h => by simpa [areLaidOut] using h
  | _, _, _ :: _, h => by
      obtain ⟨hstart, hn, hrest⟩ := areLaidOut_cons.mp h
      have hspan := start_le_stop hn
      have hle := areLaidOut_le hrest
      omega

end

theorem areLaidOut_append {start stop : Nat} {n : Node} {front back : List Node} :
    areLaidOut start stop (front ++ n :: back) = true ↔
      areLaidOut start n.start front = true ∧ n.isLaidOut = true ∧
        areLaidOut n.stop stop back = true := by
  induction front generalizing start with
  | nil => rw [List.nil_append, areLaidOut_cons]; simp [areLaidOut]
  | cons m rest ih =>
      rw [List.cons_append, areLaidOut_cons, areLaidOut_cons, ih]
      simp only [and_assoc]

theorem mem_areLaidOut {start stop : Nat} {ns : List Node} {n : Node}
    (h : areLaidOut start stop ns = true) (hn : n ∈ ns) :
    start ≤ n.start ∧ n.isLaidOut = true ∧ n.stop ≤ stop := by
  obtain ⟨front, back, rfl⟩ := List.append_of_mem hn
  obtain ⟨hfront, hlaid, hback⟩ := areLaidOut_append.mp h
  exact ⟨areLaidOut_le hfront, hlaid, areLaidOut_le hback⟩

/-! ## Spans in spans, and spans apart -/

theorem encloses_iff {m n : Node} :
    m.encloses n = true ↔ m.start ≤ n.start ∧ n.stop ≤ m.stop := by
  simp [encloses]

theorem encloses_refl (n : Node) : n.encloses n = true :=
  encloses_iff.mpr ⟨Nat.le_refl _, Nat.le_refl _⟩

theorem encloses_trans {m n k : Node} (hmn : m.encloses n = true) (hnk : n.encloses k = true) :
    m.encloses k = true := by
  rw [encloses_iff] at *
  omega

theorem encloses_child {n c : Node} (h : n.isLaidOut = true) (hc : c ∈ n.children) :
    n.encloses c = true := by
  obtain ⟨hstart, _, hstop⟩ := mem_areLaidOut (areLaidOut_children h) hc
  exact encloses_iff.mpr ⟨hstart, hstop⟩

theorem isLaidOut_child {n c : Node} (h : n.isLaidOut = true) (hc : c ∈ n.children) :
    c.isLaidOut = true :=
  (mem_areLaidOut (areLaidOut_children h) hc).2.1

theorem child?_mem {n c : Node} {r : Role} (h : n.child? r = some c) : c ∈ n.children :=
  List.mem_of_find?_eq_some h

def Apart (m n : Node) : Prop :=
  m.stop ≤ n.start ∨ n.stop ≤ m.start

theorem Apart.symm {m n : Node} (h : Apart m n) : Apart n m :=
  Or.symm h

instance : Std.Symm Apart := ⟨fun _ _ => Apart.symm⟩

theorem Apart.mono {m n m' n' : Node} (h : Apart m n) (hm : m.encloses m' = true)
    (hn : n.encloses n' = true) : Apart m' n' := by
  rw [encloses_iff] at hm hn
  unfold Apart at *
  omega

/-- A span that takes up a byte does not lie in one apart from it. -/
theorem Apart.not_encloses {m n : Node} (h : Apart m n) (hn : n.start < n.stop) :
    ¬ m.encloses n = true := by
  rw [encloses_iff]
  unfold Apart at h
  omega

theorem pairwise_apart {start stop : Nat} {ns : List Node} (h : areLaidOut start stop ns = true) :
    ns.Pairwise Apart := by
  induction ns generalizing start with
  | nil => exact List.Pairwise.nil
  | cons n rest ih =>
      obtain ⟨_, _, hrest⟩ := areLaidOut_cons.mp h
      refine List.pairwise_cons.mpr ⟨?_, ih hrest⟩
      intro m hm
      exact Or.inl (mem_areLaidOut hrest hm).1

theorem apart_of_siblings {p c d : Node} (h : p.isLaidOut = true) (hc : c ∈ p.children)
    (hd : d ∈ p.children) (hne : c ≠ d) : Apart c d :=
  (pairwise_apart (areLaidOut_children h)).forall hc hd hne

/-! ## Chains of children -/

structure IsChild (c p : Node) : Prop where
  mem : c ∈ p.children
  laidOut : p.isLaidOut = true

mutual

theorem isChain_of_mem_under {o : Occurrence} {ancestors : List Node} :
    ∀ {n : Node}, n.isLaidOut = true → (n :: ancestors).IsChain IsChild →
      o ∈ occurrencesUnder ancestors n →
      o.node.isLaidOut = true ∧ (o.node :: o.ancestors).IsChain IsChild
  | mk kind role start stop children, hn, hchain, ho => by
      rw [occurrencesUnder, List.mem_cons] at ho
      rcases ho with rfl | ho
      · exact ⟨hn, hchain⟩
      · exact isChain_of_mem_all (fun c hc => isLaidOut_child hn hc)
          (fun c hc => List.isChain_cons_cons.mpr ⟨⟨hc, hn⟩, hchain⟩) ho

theorem isChain_of_mem_all {o : Occurrence} {ancestors : List Node} :
    ∀ {ns : List Node}, (∀ c ∈ ns, c.isLaidOut = true) →
      (∀ c ∈ ns, (c :: ancestors).IsChain IsChild) →
      o ∈ occurrencesAll ancestors ns →
      o.node.isLaidOut = true ∧ (o.node :: o.ancestors).IsChain IsChild
  | [], _, _, ho => by
      rw [occurrencesAll] at ho
      cases ho
  | n :: rest, hlaid, hchain, ho => by
      rw [occurrencesAll, List.mem_append] at ho
      rcases ho with ho | ho
      · exact isChain_of_mem_under (hlaid n List.mem_cons_self) (hchain n List.mem_cons_self) ho
      · exact isChain_of_mem_all (fun c hc => hlaid c (List.mem_cons_of_mem n hc))
          (fun c hc => hchain c (List.mem_cons_of_mem n hc)) ho

end

theorem isChain_of_mem_occurrences {root : Node} {o : Occurrence} (h : root.isLaidOut = true)
    (ho : o ∈ root.occurrences) :
    o.node.isLaidOut = true ∧ (o.node :: o.ancestors).IsChain IsChild := by
  rw [occurrences_eq] at ho
  exact isChain_of_mem_under h (List.IsChain.singleton root) ho

/-- The span of a node lies in that of every node further up its chain. -/
theorem encloses_of_isChain {n m : Node} {l : List Node} (h : (n :: l).IsChain IsChild)
    (hm : m ∈ n :: l) : m.encloses n = true := by
  induction l generalizing n with
  | nil =>
      rw [List.mem_singleton] at hm
      rw [hm]
      exact encloses_refl n
  | cons p rest ih =>
      obtain ⟨hnp, hrest⟩ := List.isChain_cons_cons.mp h
      rcases List.mem_cons.mp hm with rfl | hm
      · exact encloses_refl m
      · exact encloses_trans (ih hrest hm) (encloses_child hnp.laidOut hnp.mem)

theorem exists_child_of_isChain {n p : Node} {between outer : List Node}
    (h : (n :: between ++ p :: outer).IsChain IsChild) :
    ∃ inner c, n :: between = inner ++ [c] ∧ IsChild c p := by
  obtain ⟨inner, c, hc⟩ := (List.eq_nil_or_concat (n :: between)).resolve_left (List.cons_ne_nil _ _)
  rw [List.concat_eq_append] at hc
  rw [hc, List.append_assoc] at h
  exact ⟨inner, c, hc, (List.isChain_cons_cons.mp (List.IsChain.right_of_append h)).1⟩

/-- A child of a node up the chain whose span holds the node at its foot is on the chain. -/
theorem child_on_chain {n p d : Node} {between outer : List Node}
    (h : (n :: between ++ p :: outer).IsChain IsChild) (hn : n.start < n.stop)
    (hd : d ∈ p.children) (hdn : d.encloses n = true) (hne : d ≠ n) :
    ∃ inner, between = inner ++ [d] := by
  obtain ⟨inner, c, hc, hcp⟩ := exists_child_of_isChain h
  have hcn : c.encloses n = true :=
    encloses_of_isChain (List.IsChain.left_of_append h) (by rw [hc]; simp)
  have hcd : c = d := by
    by_contra hcd
    have hapart : Apart c d := apart_of_siblings hcp.laidOut hcp.mem hd hcd
    exact (hapart.symm.mono (encloses_refl d) hcn).not_encloses hn hdn
  subst hcd
  cases inner with
  | nil =>
      rw [List.nil_append, List.cons.injEq] at hc
      exact absurd hc.1.symm hne
  | cons m rest =>
      rw [List.cons_append, List.cons.injEq] at hc
      exact ⟨rest, hc.2⟩

end Node

end TaskContract.Script
