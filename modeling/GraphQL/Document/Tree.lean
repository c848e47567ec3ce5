import GraphQL.Document.NodeSize

/-! A node with everything below it, as a tree. Tours of a document are recursions on
this tree; the number of a node is its index in the listing that names each node before
the nodes below it. -/
namespace GraphQL

inductive Tree (α : Type) where
  | node (root : α) (branches : List (Tree α))

namespace Tree
variable {α : Type}

def root : Tree α → α
  | node root _ => root

def branches : Tree α → List (Tree α)
  | node _ branches => branches

mutual

def listing (depth : Nat) : Tree α → List (Nat × α)
  | node root branches => (depth, root) :: listingAll (depth + 1) branches

def listingAll (depth : Nat) : List (Tree α) → List (Nat × α)
  | [] => []
  | tree :: rest => tree.listing depth ++ listingAll depth rest

end

end Tree

namespace Node

def tree (node : Node) : Tree Node :=
  .node node (node.children.attach.map fun child => tree child.1)
termination_by sizeOf node
decreasing_by exact child_size child.2

theorem tree_eq (node : Node) : node.tree = .node node (node.children.map tree) := by
  rw [tree]
  simp only [List.map_attach_eq_pmap, List.pmap_eq_map]

/-- The nodes at and below a node, each with its depth, a node before its children. -/
def listing (node : Node) : List (Nat × Node) := node.tree.listing 0

end Node

end GraphQL
