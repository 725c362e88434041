import TaskContract.Proofs.Script.Lines
import TaskContract.Proofs.Script.Tree

/-!
# Source order

A tree is in order if the children of each node lie in its span and follow one another without
overlap. The walk goes through such a tree in the order of the source.

- `pairwise_preorder`: what holds between a node and all below it, and between what is below two
  children of one node, holds between any two nodes in the order of the walk.
- `starts_ascend`: the walk never goes back in the source.
- `location_line_mono`, `location_lt`: places are in the order of their offsets.
-/

namespace TaskContract.Script

namespace Node

/-! ## Trees in order -/

mutual

/-- What holds of a node if it holds of its children holds of every node. -/
theorem ofChildren {P : Node → Prop} (h : ∀ n, (∀ c ∈ n.children, P c) → P n) : ∀ n, P n
  | mk _ _ _ _ children => h _ (ofChildren_all h children)

theorem ofChildren_all {P : Node → Prop} (h : ∀ n, (∀ c ∈ n.children, P c) → P n) :
    ∀ ns : List Node, ∀ n ∈ ns, P n
  | [] => List.forall_mem_nil P
  | n :: rest => List.forall_mem_cons.mpr ⟨ofChildren h n, ofChildren_all h rest⟩

end

theorem mem_preorder_iff {n d : Node} :
    d ∈ n.preorder ↔ d = n ∨ ∃ c ∈ n.children, d ∈ c.preorder := by
  rw [preorder_eq, List.mem_cons, List.mem_flatMap]

theorem pairwise_preorder {R : Node → Node → Prop} {root : Node}
    (hbelow : ∀ n ∈ root.preorder, ∀ c ∈ n.children, ∀ d ∈ c.preorder, R n d)
    (hbeside : ∀ n ∈ root.preorder,
      n.children.Pairwise fun c d => ∀ m ∈ c.preorder, ∀ k ∈ d.preorder, R m k) :
    root.preorder.Pairwise R := by
  induction root using ofChildren with
  | h n ih =>
      have hn : n ∈ n.preorder := self_mem_preorder n
      rw [preorder_eq, List.pairwise_cons, List.pairwise_flatMap]
      refine ⟨?_, ?_, hbeside n hn⟩
      · intro d hd
        obtain ⟨c, hc, hd⟩ := List.mem_flatMap.mp hd
        exact hbelow n hn c hc d hd
      · intro c hc
        have hsub : ∀ {m}, m ∈ c.preorder → m ∈ n.preorder := fun hm =>
          mem_preorder_iff.mpr (Or.inr ⟨c, hc, hm⟩)
        exact ih c hc (fun m hm => hbelow m (hsub hm)) (fun m hm => hbeside m (hsub hm))

/-- The children of the node lie in its span and follow one another without overlap. -/
structure HoldsInOrder (n : Node) : Prop where
  span : n.start ≤ n.stop
  within : ∀ c ∈ n.children, n.encloses c = true
  disjoint : n.children.Pairwise fun c d => c.stop ≤ d.start

instance {n : Node} : Decidable n.HoldsInOrder :=
  decidable_of_iff (n.start ≤ n.stop ∧ (∀ c ∈ n.children, n.encloses c = true)
      ∧ n.children.Pairwise fun c d => c.stop ≤ d.start)
    ⟨fun ⟨h₁, h₂, h₃⟩ => ⟨h₁, h₂, h₃⟩, fun h => ⟨h.span, h.within, h.disjoint⟩⟩

def InOrder (root : Node) : Prop :=
  ∀ n ∈ root.preorder, n.HoldsInOrder

instance {root : Node} : Decidable root.InOrder :=
  inferInstanceAs (Decidable (∀ n ∈ root.preorder, n.HoldsInOrder))

theorem InOrder.of_mem {root n : Node} (h : root.InOrder) (hn : n ∈ root.preorder) : n.InOrder :=
  fun m hm => h m ((preorder_isInfix hn).subset hm)

theorem InOrder.child {n c : Node} (h : n.InOrder) (hc : c ∈ n.children) : c.InOrder :=
  h.of_mem (mem_preorder_of_child (self_mem_preorder n) hc)

theorem InOrder.holds {n : Node} (h : n.InOrder) : n.HoldsInOrder :=
  h n (self_mem_preorder n)

theorem InOrder.encloses {n d : Node} (h : n.InOrder) (hd : d ∈ n.preorder) :
    n.encloses d = true := by
  induction n using ofChildren with
  | h n ih =>
      rcases mem_preorder_iff.mp hd with rfl | ⟨c, hc, hd⟩
      · exact encloses_refl d
      · exact encloses_trans (h.holds.within c hc) (ih c hc (h.child hc) hd)

/-- The walk comes to the nodes in the order in which they begin. -/
theorem starts_ascend {root : Node} (h : root.InOrder) :
    root.preorder.Pairwise fun m n => m.start ≤ n.start := by
  apply pairwise_preorder
  · intro n hn c hc d hd
    have hbelow : n.encloses d = true :=
      (h.of_mem hn).encloses (mem_preorder_iff.mpr (Or.inr ⟨c, hc, hd⟩))
    exact (encloses_iff.mp hbelow).1
  · intro n hn
    apply List.Pairwise.imp_of_mem _ (h n hn).disjoint
    intro c d hc hd hcd m hm k hk
    have hinner : m.InOrder := ((h.of_mem hn).child hc).of_mem hm
    have hmc := encloses_iff.mp (((h.of_mem hn).child hc).encloses hm)
    have hkd := encloses_iff.mp (((h.of_mem hn).child hd).encloses hk)
    have hspan := hinner.holds.span
    omega

end Node

/-! ## Places in order -/

/-- Places are read line by line. -/
instance : LT Location :=
  ⟨fun a b => a.line < b.line ∨ a.line = b.line ∧ a.column < b.column⟩

theorem Location.lt_iff {a b : Location} :
    a < b ↔ a.line < b.line ∨ a.line = b.line ∧ a.column < b.column :=
  Iff.rfl

theorem Location.lt_irrefl (a : Location) : ¬ a < a := by
  rw [lt_iff]
  omega

theorem takeBytes_isPrefix {m n : Nat} (h : m ≤ n) (cs : List Char) :
    takeBytes m cs <+: takeBytes n cs := by
  induction cs generalizing m n with
  | nil => cases m <;> cases n <;> exact List.prefix_rfl
  | cons c rest ih =>
      cases m with
      | zero => exact List.nil_prefix
      | succ m =>
          rw [takeBytes_cons (by omega), takeBytes_cons (by omega), List.cons_prefix_cons]
          exact ⟨rfl, ih (by omega)⟩

theorem takeBytes_append_dropBytes (n : Nat) (cs : List Char) :
    takeBytes n cs ++ dropBytes n cs = cs := by
  induction cs generalizing n with
  | nil => cases n <;> rfl
  | cons c rest ih =>
      cases n with
      | zero => rfl
      | succ n => rw [takeBytes_cons (by omega), dropBytes_cons (by omega), List.cons_append, ih]

namespace Source

variable {s : Source}

/-- A boundary is where as many bytes have been taken as were asked for. -/
theorem isBoundary_iff {offset : Nat} :
    s.IsBoundary offset ↔ byteSize (takeBytes offset s.chars) = offset := by
  constructor
  · rintro ⟨front, back, hchars, rfl⟩
    rw [hchars, takeBytes_append]
  · intro h
    exact ⟨_, _, (takeBytes_append_dropBytes offset s.chars).symm, h⟩

instance {offset : Nat} : Decidable (s.IsBoundary offset) :=
  decidable_of_iff _ isBoundary_iff.symm

theorem location_line_mono {a b : Nat} (h : a ≤ b) :
    (s.location a).line ≤ (s.location b).line := by
  have hcount := (takeBytes_isPrefix h s.chars).sublist.countP_le (p := (· = '\n'))
  exact Nat.succ_le_succ hcount

theorem lastRow_append {xs ys : List Char} (h : '\n' ∉ ys) :
    lastRow (xs ++ ys) = lastRow xs ++ ys := by
  have hkept : ∀ c ∈ ys.reverse, decide (c ≠ '\n') = true := by
    intro c hc
    exact decide_eq_true (ne_of_mem_of_not_mem (List.mem_reverse.mp hc) h)
  rw [lastRow, List.reverse_append, List.takeWhile_append_of_pos hkept, List.reverse_append,
    List.reverse_reverse]
  rfl

theorem location_lt {a b : Nat} (ha : s.IsBoundary a) (hb : s.IsBoundary b) (h : a < b) :
    s.location a < s.location b := by
  obtain ⟨front, back, hchars, rfl⟩ := ha
  obtain ⟨upto, after, hsplit, rfl⟩ := hb
  rw [location_eq hchars, location_eq hsplit, Location.lt_iff]
  dsimp only
  obtain ⟨between, rfl⟩ : ∃ between, upto = front ++ between := by
    rcases List.append_eq_append_iff.mp (hchars.symm.trans hsplit) with
      ⟨between, hupto, -⟩ | ⟨between, hfront, -⟩
    · exact ⟨between, hupto⟩
    · have hsize := byteSize_append upto between
      rw [← hfront] at hsize
      omega
  have hne : between ≠ [] := by
    rintro rfl
    rw [List.append_nil] at h
    omega
  rw [List.count_append]
  by_cases hfeed : '\n' ∈ between
  · have hcount := List.count_pos_iff.mpr hfeed
    exact Or.inl (by omega)
  · have hlength := List.length_pos_iff.mpr hne
    rw [List.count_eq_zero.mpr hfeed, lastRow_append hfeed, List.length_append]
    exact Or.inr ⟨rfl, by omega⟩

end Source

end TaskContract.Script
