import TaskContract.Proofs.Analysis.ModelCalls
import TaskContract.Proofs.Script.Order
import TaskContract.Proofs.Text

/-!
# The places of unresolved references

An unresolved reference is found again by the place of its call. `unresolved_places_ascend` says
that a place tells one reference: in each list of a contract the places ascend, and no place is in
both lists. What is behind this is that no two calls of methods of `io` begin at one byte: each
begins with the name `io`, which has no room for another call.
-/

namespace TaskContract.Analysis

open Script Script.Node

/-! ## Trees of a script -/

/-- What is known of a tree that is read from a script: it is in order, no node below the root is
empty where it has no parts, a call begins with its callee and a member expression with its object,
and no name is cut within a character, so that it can be read as text. -/
structure IsTreeOf (s : Source) (root : Node) : Prop where
  inOrder : root.InOrder
  tokens : ∀ n ∈ root.preorder, ∀ c ∈ n.children, c.children = [] → c.start < c.stop
  callee : ∀ n ∈ root.preorder, n.kind = .callExpression →
    ∀ f ∈ n.child? .function, f.start = n.start
  object : ∀ n ∈ root.preorder, n.kind = .memberExpression →
    ∀ o ∈ n.child? .object, o.start = n.start
  names : ∀ n ∈ root.preorder, n.kind = .identifier ∨ n.kind = .propertyIdentifier →
    s.IsBoundary n.start ∧ s.IsBoundary n.stop

instance {s : Source} {root : Node} : Decidable (IsTreeOf s root) :=
  decidable_of_iff (root.InOrder
      ∧ (∀ n ∈ root.preorder, ∀ c ∈ n.children, c.children = [] → c.start < c.stop)
      ∧ (∀ n ∈ root.preorder, n.kind = .callExpression →
        ∀ f ∈ n.child? .function, f.start = n.start)
      ∧ (∀ n ∈ root.preorder, n.kind = .memberExpression →
        ∀ o ∈ n.child? .object, o.start = n.start)
      ∧ ∀ n ∈ root.preorder, n.kind = .identifier ∨ n.kind = .propertyIdentifier →
        s.IsBoundary n.start ∧ s.IsBoundary n.stop)
    ⟨fun ⟨h₁, h₂, h₃, h₄, h₅⟩ => ⟨h₁, h₂, h₃, h₄, h₅⟩,
      fun h => ⟨h.inOrder, h.tokens, h.callee, h.object, h.names⟩⟩

def IsIoCall (s : Source) (n : Node) : Prop :=
  ∃ method, (method = readMethod ∨ method = writeMethod) ∧ CallsMember s n ioObject method

theorem isArtifactCall_iff {s : Source} {method : Text} {n : Node} :
    isArtifactCall s method n = true ↔ CallsMember s n ioObject method := by
  rw [callsMember_iff, isArtifactCall]
  cases calledMember? s n with
  | none => simp
  | some c => simp [and_comm]

theorem isIoCall_of_mem {s : Source} {root : Node} {method : Text}
    (hmethod : method = readMethod ∨ method = writeMethod) {o : Occurrence}
    (ho : o ∈ artifactCalls s root method) : o.node ∈ root.preorder ∧ IsIoCall s o.node := by
  obtain ⟨hmem, hcall⟩ := mem_artifactCalls.mp ho
  exact ⟨List.mem_map.mpr ⟨o, hmem, rfl⟩, method, hmethod, isArtifactCall_iff.mp hcall⟩

namespace IsTreeOf

variable {s : Source} {root : Node} (h : IsTreeOf s root)

include h

/-- Every node below the root takes up a byte. -/
theorem start_lt_stop {n c : Node} (hn : n ∈ root.preorder) (hc : c ∈ n.children) :
    c.start < c.stop := by
  induction c using ofChildren generalizing n with
  | h c ih =>
      have hmem : c ∈ root.preorder := mem_preorder_of_child hn hc
      cases hchildren : c.children with
      | nil => exact h.tokens n hn c hc hchildren
      | cons d rest =>
          have hd : d ∈ c.children := by
            rw [hchildren]
            exact List.mem_cons_self
          have hspan := ih d hd hmem hd
          have hwithin := encloses_iff.mp ((h.inOrder c hmem).within d hd)
          omega

theorem eq_of_start_eq {n c d : Node} (hn : n ∈ root.preorder) (hc : c ∈ n.children)
    (hd : d ∈ n.children) (hstart : c.start = d.start) : c = d := by
  by_contra hne
  have hcspan := h.start_lt_stop hn hc
  have hdspan := h.start_lt_stop hn hd
  have happart : Apart c d := by
    have hall : n.children.Pairwise Apart := (h.inOrder n hn).disjoint.imp Or.inl
    exact hall.forall hc hd hne
  unfold Apart at happart
  omega

/-- A node that begins where a node above it begins lies in the first part of that. -/
theorem below_first {n c d f : Node} (hn : n ∈ root.preorder) (hc : c ∈ n.children)
    (hd : d ∈ c.preorder) (hf : f ∈ n.children) (hfirst : f.start = n.start)
    (hstart : d.start = n.start) : d ∈ f.preorder := by
  have hinner := h.inOrder.of_mem hn
  have hnc := encloses_iff.mp (hinner.holds.within c hc)
  have hcd := encloses_iff.mp ((hinner.child hc).encloses hd)
  have heq : c = f := h.eq_of_start_eq hn hc hf (by omega)
  exact heq ▸ hd

theorem stop_eq {n : Node} {t : String} (hn : n ∈ root.preorder)
    (hkind : n.kind = .identifier ∨ n.kind = .propertyIdentifier)
    (htext : s.nodeText n = Text.ofString t) : n.stop = n.start + byteSize t.toList := by
  obtain ⟨front, back, hchars, hfront⟩ := (h.names n hn hkind).1
  obtain ⟨after, -, hsize⟩ := Source.slice_eq hchars (h.names n hn hkind).2
    (hfront ▸ (h.inOrder n hn).span)
  have hslice : s.slice n.start n.stop = t.toList :=
    List.map_injective_iff.mpr CodePoint.ofChar_injective htext
  rw [hfront, hslice] at hsize
  exact hsize.symm

/-- The method that is called takes up more bytes than the name of the object. -/
theorem long_of_isIoCall {d : Node} (hd : d ∈ root.preorder) (hcall : IsIoCall s d) :
    d.start + 12 ≤ d.stop := by
  obtain ⟨method, hmethod, -, f, -, m, hf, -, -, -, -, hm, hmkind, htext⟩ := hcall
  have hfmem : f ∈ root.preorder := mem_preorder_of_child hd (child?_mem hf)
  have hmmem : m ∈ root.preorder := mem_preorder_of_child hfmem (child?_mem hm)
  have hstop : m.start + 12 ≤ m.stop := by
    rcases hmethod with rfl | rfl
    · exact (h.stop_eq hmmem (Or.inr hmkind) (t := "readArtifact") htext).ge
    · exact (Nat.le_succ _).trans (h.stop_eq hmmem (Or.inr hmkind) (t := "writeArtifact") htext).ge
  have hdf := encloses_iff.mp ((h.inOrder d hd).within f (child?_mem hf))
  have hfm := encloses_iff.mp ((h.inOrder f hfmem).within m (child?_mem hm))
  omega

/-- A call of a method of `io` begins with the name `io`. -/
theorem exists_object {n : Node} (hn : n ∈ root.preorder) (hcall : IsIoCall s n) :
    ∃ f o, f ∈ n.children ∧ f.kind = .memberExpression ∧ f.start = n.start ∧ o ∈ f.children
      ∧ o.kind = .identifier ∧ o.start = n.start ∧ o.stop = n.start + 2 := by
  obtain ⟨_, -, hkind, f, o, -, hf, hfkind, ho, hokind, hotext, -⟩ := hcall
  have hfmem : f ∈ root.preorder := mem_preorder_of_child hn (child?_mem hf)
  have homem : o ∈ root.preorder := mem_preorder_of_child hfmem (child?_mem ho)
  have hfstart : f.start = n.start := h.callee n hn hkind f hf
  have hostart : o.start = n.start := (h.object f hfmem hfkind o ho).trans hfstart
  have hostop : o.stop = o.start + 2 := h.stop_eq homem (Or.inl hokind) (t := "io") hotext
  exact ⟨f, o, child?_mem hf, hfkind, hfstart, child?_mem ho, hokind, hostart, hostart ▸ hostop⟩

/-- A call of a method of `io` begins before any such call within it: what begins with it is the
object alone, and there is no room for a call in a name of two characters. -/
theorem start_lt_of_below {n c d : Node} (hn : n ∈ root.preorder) (hc : c ∈ n.children)
    (hd : d ∈ c.preorder) (houter : IsIoCall s n) (hinner : IsIoCall s d) :
    n.start < d.start := by
  have hdn : d ∈ n.preorder := mem_preorder_iff.mpr (Or.inr ⟨c, hc, hd⟩)
  have hdmem : d ∈ root.preorder := (preorder_isInfix hn).subset hdn
  have hle := (encloses_iff.mp ((h.inOrder.of_mem hn).encloses hdn)).1
  have hlong := h.long_of_isIoCall hdmem hinner
  obtain ⟨f, o, hf, hfkind, hfstart, ho, -, hostart, hostop⟩ := h.exists_object hn houter
  have hfmem : f ∈ root.preorder := mem_preorder_of_child hn hf
  have homem : o ∈ root.preorder := mem_preorder_of_child hfmem ho
  by_contra hnot
  have hstart : d.start = n.start := by omega
  have hdf : d ∈ f.preorder := h.below_first hn hc hd hf hfstart hstart
  rcases mem_preorder_iff.mp hdf with rfl | ⟨c', hc', hdc'⟩
  · obtain ⟨_, -, hdkind, -⟩ := hinner
    rw [hfkind] at hdkind
    cases hdkind
  · have hdo : d ∈ o.preorder :=
      h.below_first hfmem hc' hdc' ho (hostart.trans hfstart.symm) (hstart.trans hfstart.symm)
    have hod := encloses_iff.mp ((h.inOrder.of_mem homem).encloses hdo)
    omega

/-- The walk comes to the calls of methods of `io` in the order in which they begin, and no two of
them begin at one byte. -/
theorem ioCalls_ascend :
    root.preorder.Pairwise fun m n => IsIoCall s m → IsIoCall s n → m.start < n.start := by
  apply pairwise_preorder
  · intro n hn c hc d hd
    exact h.start_lt_of_below hn hc hd
  · intro n hn
    apply List.Pairwise.imp_of_mem _ (h.inOrder n hn).disjoint
    intro c d hc hd hcd m hm k hk hcall _
    have hroot : ∀ {c m : Node}, c ∈ n.children → m ∈ c.preorder → m ∈ root.preorder :=
      fun hc hm => (preorder_isInfix (mem_preorder_of_child hn hc)).subset hm
    have hlong := h.long_of_isIoCall (hroot hc hm) hcall
    have hinner := h.inOrder.of_mem hn
    have hcm := encloses_iff.mp ((hinner.child hc).encloses hm)
    have hdk := encloses_iff.mp ((hinner.child hd).encloses hk)
    omega

theorem isBoundary_start {n : Node} (hn : n ∈ root.preorder) (hcall : IsIoCall s n) :
    s.IsBoundary n.start := by
  obtain ⟨f, o, hf, -, -, ho, hokind, hostart, -⟩ := h.exists_object hn hcall
  have homem : o ∈ root.preorder := mem_preorder_of_child (mem_preorder_of_child hn hf) ho
  exact hostart ▸ (h.names o homem (Or.inl hokind)).1

/-- The place of a later call is a later one. -/
theorem location_lt_of_start_lt {m n : Node} (hm : m ∈ root.preorder) (hn : n ∈ root.preorder)
    (hmcall : IsIoCall s m) (hncall : IsIoCall s n) (hlt : m.start < n.start) :
    s.location m.start < s.location n.start :=
  Source.location_lt (h.isBoundary_start hm hmcall) (h.isBoundary_start hn hncall) hlt

theorem eq_of_location_eq {m n : Node} (hm : m ∈ root.preorder) (hn : n ∈ root.preorder)
    (hmcall : IsIoCall s m) (hncall : IsIoCall s n)
    (hplace : s.location m.start = s.location n.start) : m = n := by
  by_contra hne
  have hapart : root.preorder.Pairwise fun m n =>
      IsIoCall s m → IsIoCall s n → s.location m.start ≠ s.location n.start := by
    apply List.Pairwise.imp_of_mem _ h.ioCalls_ascend
    intro m n hm hn hlt hmcall hncall heq
    have hbefore := h.location_lt_of_start_lt hm hn hmcall hncall (hlt hmcall hncall)
    rw [heq] at hbefore
    exact Location.lt_irrefl _ hbefore
  have : Std.Symm fun m n =>
      IsIoCall s m → IsIoCall s n → s.location m.start ≠ s.location n.start :=
    ⟨fun _ _ hmn hn hm => (hmn hm hn).symm⟩
  exact hapart.forall hm hn hne hmcall hncall hplace

/-! ## References -/

section

variable {method : Text} (hmethod : method = readMethod ∨ method = writeMethod)

include hmethod

theorem artifactCalls_ascend :
    (artifactCalls s root method).Pairwise fun o o' =>
      s.location o.node.start < s.location o'.node.start := by
  have hall : root.occurrences.Pairwise fun o o' =>
      IsIoCall s o.node → IsIoCall s o'.node → o.node.start < o'.node.start := by
    have hnodes := h.ioCalls_ascend
    rwa [preorder, List.pairwise_map] at hnodes
  rw [artifactCalls]
  apply List.Pairwise.imp_of_mem _ (hall.filter _)
  intro o o' ho ho' hlt
  obtain ⟨hmem, hcall⟩ := isIoCall_of_mem hmethod ho
  obtain ⟨hmem', hcall'⟩ := isIoCall_of_mem hmethod ho'
  exact h.location_lt_of_start_lt hmem hmem' hcall hcall' (hlt hcall hcall')

/-- The places of the references without a name, in the order in which they are found. -/
theorem unresolved_ascend {calls : List ArtifactCall} {required : ArtifactCall → Option Bool}
    (hcalls : (artifactCalls s root method).mapM (artifactCall s method) = .ok calls) :
    (((calls.filter fun c => c.fileName.isNone).map fun c => c.unresolved s (required c)).map
      UnresolvedReference.location).Pairwise (· < ·) := by
  have hread : calls.map ArtifactCall.occurrence = artifactCalls s root method := by
    have hpaired := (mapM_eq_ok_iff.mp hcalls).imp fun _ _ hc => (artifactCall_spec hc).1.symm
    rw [← List.forall₂_eq_eq_eq, List.forall₂_map_left_iff]
    exact hpaired.flip.imp fun _ _ heq => heq.symm
  have hascend := h.artifactCalls_ascend hmethod
  rw [← hread, List.pairwise_map] at hascend
  rw [List.map_map, List.pairwise_map]
  exact hascend.filter _

end

end IsTreeOf

theorem not_both_methods {s : Source} {n : Node} (hread : isArtifactCall s readMethod n = true)
    (hwrite : isArtifactCall s writeMethod n = true) : False := by
  rw [isArtifactCall] at hread hwrite
  split at hread
  · rename_i hcalled
    rw [hcalled] at hwrite
    simp only [Bool.and_eq_true, decide_eq_true_eq] at hread hwrite
    exact absurd (hread.1.symm.trans hwrite.1) (by decide)
  · cases hread

/-- **A place tells one unresolved reference.** The places of the unresolved reads of a contract
ascend, so do those of its unresolved writes, and no place is in both lists. -/
theorem unresolved_places_ascend (s : Source) (contract : Contract)
    (htree : ∀ root, parse s = .ok root → IsTreeOf s root) (h : analyzeTask s = .ok contract) :
    (contract.unresolvedReads.map UnresolvedReference.location).Pairwise (· < ·)
      ∧ (contract.unresolvedWrites.map UnresolvedReference.location).Pairwise (· < ·)
      ∧ (contract.unresolvedReads.map UnresolvedReference.location).Disjoint
        (contract.unresolvedWrites.map UnresolvedReference.location) := by
  obtain ⟨root, reads, writes, hparse, hreads, hwrites, -, -, -, hr, -, hw⟩ := analyzeTask_spec h
  have hroot : IsTreeOf s root := htree root hparse
  rw [hr, hw]
  refine ⟨?reads, ?writes, ?disjoint⟩
  case reads =>
    rw [artifactReads, bind_return_eq_ok_iff] at hreads
    obtain ⟨calls, hcalls, rfl⟩ := hreads
    exact hroot.unresolved_ascend (Or.inl rfl) hcalls
  case writes =>
    rw [artifactWrites, bind_return_eq_ok_iff] at hwrites
    obtain ⟨calls, hcalls, rfl⟩ := hwrites
    exact hroot.unresolved_ascend (Or.inr rfl) hcalls
  case disjoint =>
    intro place hread hwrite
    obtain ⟨r, hr, rfl⟩ := List.mem_map.mp hread
    obtain ⟨w, hw, hplace⟩ := List.mem_map.mp hwrite
    obtain ⟨c, hc, -, rfl⟩ := (artifactReads_spec hreads).2 r hr
    obtain ⟨d, hd, -, rfl⟩ := (artifactWrites_spec hwrites).2 w hw
    obtain ⟨hcmem, hccall⟩ := isIoCall_of_mem (Or.inl rfl) hc.mem
    obtain ⟨hdmem, hdcall⟩ := isIoCall_of_mem (Or.inr rfl) hd.mem
    have hnodes : d.occurrence.node = c.occurrence.node :=
      hroot.eq_of_location_eq hdmem hcmem hdcall hccall hplace
    have hwritten := (mem_artifactCalls.mp hd.mem).2
    rw [hnodes] at hwritten
    exact not_both_methods (mem_artifactCalls.mp hc.mem).2 hwritten

/-- Reads within reads, with a write as the innermost call, behind characters of two bytes. -/
def nestedReads : Source where
  chars :=
    "export const f=()=>io.readArtifact(é,\nio.readArtifact(é,io.writeArtifact(n)))".toList

set_option maxRecDepth 100000 in
theorem nestedReads_found :
    ((parse nestedReads).toOption.all fun root => decide (IsTreeOf nestedReads root)) = true
      ∧ ((analyzeTask nestedReads).toOption.any fun contract =>
        contract.unresolvedReads.map UnresolvedReference.location = [⟨1, 19⟩, ⟨2, 0⟩]
          && contract.unresolvedWrites.map UnresolvedReference.location = [⟨2, 18⟩]) = true := by
  constructor <;> decide +kernel

theorem nestedReads_ascend : ∃ contract, analyzeTask nestedReads = .ok contract
    ∧ (∀ root, parse nestedReads = .ok root → IsTreeOf nestedReads root)
    ∧ contract.unresolvedReads.map UnresolvedReference.location = [⟨1, 19⟩, ⟨2, 0⟩]
    ∧ contract.unresolvedWrites.map UnresolvedReference.location = [⟨2, 18⟩]
    ∧ (contract.unresolvedReads.map UnresolvedReference.location).Pairwise (· < ·)
    ∧ (contract.unresolvedReads.map UnresolvedReference.location).Disjoint
      (contract.unresolvedWrites.map UnresolvedReference.location) := by
  obtain ⟨htree, hanalyzed⟩ := nestedReads_found
  obtain ⟨contract, hcontract, hfound⟩ := exists_ok_of_any hanalyzed
  rw [Bool.and_eq_true, decide_eq_true_eq, decide_eq_true_eq] at hfound
  have hroot : ∀ root, parse nestedReads = .ok root → IsTreeOf nestedReads root := by
    intro root hparse
    rw [hparse] at htree
    exact of_decide_eq_true htree
  obtain ⟨hreads, -, hdisjoint⟩ := unresolved_places_ascend nestedReads contract hroot hcontract
  exact ⟨contract, hcontract, hroot, hfound.1, hfound.2, hreads, hdisjoint⟩

end TaskContract.Analysis
