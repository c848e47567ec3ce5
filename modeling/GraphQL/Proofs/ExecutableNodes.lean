import GraphQL.Proofs.Events
import GraphQL.Proofs.ValidDocuments

/-! The nodes of executable documents. None of them is malformed, and none of them belongs
to the definitions of a type system, below which in turn nothing is executable. -/
namespace GraphQL

namespace Node

section Executable

/-- What executable documents are made of. -/
def Executable : Node → Prop
  | .document d => d.Executable
  | .definition d => d.Executable
  | .variableDefinition d => d.type.Unrepeated
  | .type t => t.Unrepeated
  | .selectionSet _ | .selection _ | .argument _ | .value _ | .objectField _ | .directive _ => True
  | .rootType _ | .fieldDefinition _ | .inputValue _ | .enumValue _ => False

/-- Arguments and directives with what is below them, of which no specified rule takes
notice. -/
def Plain : Node → Prop
  | .argument _ | .value _ | .objectField _ | .directive _ => True
  | _ => False

theorem plain_child (node : Node) (plain : node.Plain) : ∀ child ∈ node.children, child.Plain := by
  intro child member
  cases node with
  | argument a =>
      rw [List.mem_singleton.mp member]
      trivial
  | objectField f =>
      rw [List.mem_singleton.mp member]
      trivial
  | directive d =>
      obtain ⟨argument, _, rfl⟩ := List.mem_map.mp member
      trivial
  | value v =>
      rcases v with ⟨_, form⟩
      cases form with
      | list items =>
          obtain ⟨item, _, rfl⟩ := List.mem_map.mp member
          trivial
      | object fields =>
          obtain ⟨field, _, rfl⟩ := List.mem_map.mp member
          trivial
      | _ => cases member
  | _ => cases plain

theorem Plain.executable {node : Node} (plain : node.Plain) : node.Executable := by
  cases node with
  | argument _ | value _ | objectField _ | directive _ => trivial
  | _ => cases plain

theorem executable_child (node : Node) (executable : node.Executable) :
    ∀ child ∈ node.children, child.Executable := by
  intro child member
  cases node with
  | document d =>
      obtain ⟨definition, inside, rfl⟩ := List.mem_map.mp member
      exact executable.2 definition inside
  | definition d =>
      cases d with
      | operation d =>
          simp only [children, ofDefinition, List.mem_append, List.mem_map,
            List.mem_singleton] at member
          rcases member with (⟨definition, inside, rfl⟩ | ⟨directive, _, rfl⟩) | rfl
          · exact executable definition inside
          · trivial
          · trivial
      | fragment d =>
          simp only [children, ofDefinition, List.cons_append, List.mem_cons, List.mem_append,
            List.mem_map, List.not_mem_nil, or_false] at member
          rcases member with rfl | ⟨directive, _, rfl⟩ | rfl <;> trivial
      | _ => cases executable
  | variableDefinition d =>
      simp only [children, List.mem_cons, Option.mem_toList, Option.map_eq_some_iff] at member
      rcases member with rfl | ⟨value, _, rfl⟩
      · exact executable
      · trivial
  | selectionSet s =>
      obtain ⟨selection, _, rfl⟩ := List.mem_map.mp member
      trivial
  | selection s =>
      cases s with
      | field f =>
          simp only [children, ofSelection, List.mem_append, List.mem_map, Option.mem_toList,
            Option.map_eq_some_iff] at member
          rcases member with (⟨_, _, rfl⟩ | ⟨_, _, rfl⟩) | ⟨_, _, rfl⟩ <;> trivial
      | spread s =>
          obtain ⟨directive, _, rfl⟩ := List.mem_map.mp member
          trivial
      | inline f =>
          simp only [children, ofSelection, List.mem_append, List.mem_map, Option.mem_toList,
            Option.map_eq_some_iff, List.mem_singleton] at member
          rcases member with (⟨_, _, rfl⟩ | ⟨_, _, rfl⟩) | rfl <;> trivial
  | type t =>
      cases t with
      | named t => cases member
      | list _ inner =>
          rw [List.mem_singleton.mp member]
          exact executable
      | nonNull _ inner =>
          rw [List.mem_singleton.mp member]
          -- What is below may admit null or not, but it is not marked a second time.
          cases inner with
          | nonNull _ _ => cases executable
          | named _ => trivial
          | list _ _ => exact executable
  | argument _ | value _ | objectField _ | directive _ =>
      refine (plain_child _ ?_ child member).executable
      trivial
  | rootType _ | fieldDefinition _ | inputValue _ | enumValue _ => cases executable

theorem Executable.sound {node : Node} (executable : node.Executable) : node.flaw? = none := by
  cases node with
  | document d =>
      rw [flaw?, if_neg]
      simpa using executable.1
  | type t =>
      rcases t with _ | _ | ⟨_, _ | _ | _⟩
      · rfl
      · rfl
      · rfl
      · rfl
      · cases executable
  | _ => rfl

theorem Executable.intact {node : Node} (executable : node.Executable) : node.Intact :=
  fun event member => (all_events executable_child node executable event member).sound

end Executable

section TypeSystem

/-- What the definitions of a type system are made of. -/
def TypeSystem : Node → Prop
  | .definition d => d.isExecutable = false
  | .document _ | .variableDefinition _ | .selectionSet _ | .selection _ => False
  | .argument _ | .value _ | .objectField _ | .directive _ | .type _ | .rootType _
  | .fieldDefinition _ | .inputValue _ | .enumValue _ => True

theorem Plain.type_system {node : Node} (plain : node.Plain) : node.TypeSystem := by
  cases node with
  | argument _ | value _ | objectField _ | directive _ => trivial
  | _ => cases plain

theorem type_system_child (node : Node) (own : node.TypeSystem) :
    ∀ child ∈ node.children, child.TypeSystem := by
  intro child member
  cases node with
  | definition d =>
      cases d with
      | operation _ | fragment _ => cases own
      | scalar d =>
          obtain ⟨directive, _, rfl⟩ := List.mem_map.mp member
          trivial
      | directive d =>
          obtain ⟨argument, _, rfl⟩ := List.mem_map.mp member
          trivial
      | schema d | union d | enum d | input d =>
          simp only [children, ofDefinition, List.mem_append, List.mem_map] at member
          rcases member with ⟨_, _, rfl⟩ | ⟨_, _, rfl⟩ <;> trivial
      | object d | interface d =>
          simp only [children, ofDefinition, List.mem_append, List.mem_map] at member
          rcases member with (⟨_, _, rfl⟩ | ⟨_, _, rfl⟩) | ⟨_, _, rfl⟩ <;> trivial
  | type t =>
      cases t with
      | named t => cases member
      | list _ inner | nonNull _ inner =>
          rw [List.mem_singleton.mp member]
          trivial
  | rootType d =>
      rw [List.mem_singleton.mp member]
      trivial
  | fieldDefinition d =>
      simp only [children, List.mem_append, List.mem_cons, List.mem_map] at member
      rcases member with ⟨_, _, rfl⟩ | rfl | ⟨_, _, rfl⟩ <;> trivial
  | inputValue d =>
      simp only [children, List.cons_append, List.mem_cons, List.mem_append, Option.mem_toList,
        Option.map_eq_some_iff, List.mem_map] at member
      rcases member with rfl | ⟨_, _, rfl⟩ | ⟨_, _, rfl⟩ <;> trivial
  | enumValue d =>
      obtain ⟨directive, _, rfl⟩ := List.mem_map.mp member
      trivial
  | argument _ | value _ | objectField _ | directive _ =>
      refine (plain_child _ ?_ child member).type_system
      trivial
  | document _ | variableDefinition _ | selectionSet _ | selection _ => cases own

end TypeSystem
end Node
end GraphQL
