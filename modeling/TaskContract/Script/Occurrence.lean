import TaskContract.Script.Node

/-!
# Nodes with what surrounds them

An occurrence is a node of a tree together with its ancestors, the innermost first. Questions about
the surroundings of a node are questions about that list. A tree is walked with a stack of the
occurrences that are still to come, the next one on top.
-/

namespace TaskContract.Script

/-- A node and the nodes it lies in, the innermost first. -/
structure Occurrence where
  node : Node
  ancestors : List Node

namespace Occurrence

def children (o : Occurrence) : List Occurrence :=
  o.node.children.map fun c => ⟨c, o.node :: o.ancestors⟩

theorem map_node_children (o : Occurrence) : o.children.map node = o.node.children := by
  simp [children, Function.comp_def]

/-- Walks on from a stack: what is on top comes next, and its children take its place. -/
def walk : List Occurrence → List Occurrence
  | [] => []
  | o :: stack => o :: walk (o.children ++ stack)
termination_by stack => Node.sizeAll (stack.map node)
decreasing_by
  obtain ⟨⟨kind, role, start, stop, children⟩, ancestors⟩ := o
  simp [Node.sizeAll_append, map_node_children, Node.sizeAll, Node.size, Node.children]

/-- The innermost ancestor of a kind among the given. -/
def within? (o : Occurrence) (isOne : Kind → Bool) : Option Node :=
  o.ancestors.find? fun n => isOne n.kind

end Occurrence

namespace Node

/-- All nodes of the tree with their ancestors, a parent before its children, in source order. -/
def occurrences (root : Node) : List Occurrence :=
  Occurrence.walk [⟨root, []⟩]

/-- The node and all below it, a parent before its children, in source order. -/
def preorder (root : Node) : List Node :=
  root.occurrences.map Occurrence.node

end Node

end TaskContract.Script
