import GraphQL.Document.Node

/-! A finding: what is wrong, the nodes it is about, and the findings it follows from. -/
namespace GraphQL

structure Finding where
  message : String
  nodes : List Node
  previous : List Finding

namespace Finding

def about (message : String) (node : Node) : Finding := ⟨message, [node], []⟩

def places (finding : Finding) : List Position := finding.nodes.map Node.position

mutual

def same : Finding → Finding → Bool
  | ⟨message, nodes, previous⟩, ⟨message', nodes', previous'⟩ =>
      message == message' && nodes == nodes' && sameAll previous previous'

def sameAll : List Finding → List Finding → Bool
  | [], [] => true
  | finding :: rest, finding' :: rest' => finding.same finding' && sameAll rest rest'
  | _, _ => false

end

instance : BEq Finding := ⟨same⟩

end Finding
end GraphQL
