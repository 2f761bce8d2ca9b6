import Amend.Tree.Node

/-!
# The nodes of a tree in order

`Node.descendants` lists a node and all nodes below it, each parent before its children
and the children from left to right.  It works off a list of nodes still to be visited.
-/

namespace Amend.Node

/-- Visit the nodes that are pending, each one before what stands below it and all of
that before the next one. -/
def visit : List Node → List Node
  | [] => []
  | n :: pending => n :: visit (n.children ++ pending)
termination_by pending => sizeAll pending
decreasing_by
  have := n.size_eq
  simp [sizeAll]
  omega

/-- A node and everything below it, in pre-order. -/
def descendants (n : Node) : List Node := visit [n]

end Amend.Node
