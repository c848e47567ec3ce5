import GraphQL.Proofs.Events
import Mathlib.Data.List.Perm.Basic

/-! The nodes of a document, listed by recursion over what a document is made of: for each
type of its parts there is a listing of its own, which takes nothing from the children of
nodes. The nodes that are entered on a tour that leaves nothing out are those of the
listing, in its order, so no part is missing among the children and none is there twice. -/
namespace GraphQL

section Values

mutual

def Value.nodes : Value → List Node
  | ⟨place, form⟩ => .value ⟨place, form⟩ :: form.nodes

def ValueForm.nodes : ValueForm → List Node
  | .reference _ | .whole _ | .double _ | .string _ | .boolean _ | .null | .enumeration _ => []
  | .list items => nodesOfItems items
  | .object fields => nodesOfObjectFields fields

def nodesOfItems : List Value → List Node
  | [] => []
  | item :: rest => item.nodes ++ nodesOfItems rest

def ObjectField.nodes : ObjectField → List Node
  | ⟨place, name, value⟩ => .objectField ⟨place, name, value⟩ :: value.nodes

def nodesOfObjectFields : List ObjectField → List Node
  | [] => []
  | field :: rest => field.nodes ++ nodesOfObjectFields rest

end

theorem nodes_of_items_eq (items : List Value) :
    nodesOfItems items = items.flatMap Value.nodes := by
  induction items with
  | nil => rfl
  | cons item rest ih => rw [nodesOfItems, ih, List.flatMap_cons]

theorem nodes_of_object_fields_eq (fields : List ObjectField) :
    nodesOfObjectFields fields = fields.flatMap ObjectField.nodes := by
  induction fields with
  | nil => rfl
  | cons field rest ih => rw [nodesOfObjectFields, ih, List.flatMap_cons]

def Argument.nodes (argument : Argument) : List Node :=
  .argument argument :: argument.value.nodes

def Directive.nodes (directive : Directive) : List Node :=
  .directive directive :: directive.arguments.flatMap Argument.nodes

end Values

section Types

def NamedType.nodes (type : NamedType) : List Node := [.type (.named type)]

def TypeRef.nodes : TypeRef → List Node
  | .named type => type.nodes
  | .list place inner => .type (.list place inner) :: inner.nodes
  | .nonNull place inner => .type (.nonNull place inner) :: inner.nodes

end Types

section Selections

mutual

def SelectionSet.nodes : SelectionSet → List Node
  | ⟨place, selections⟩ => .selectionSet ⟨place, selections⟩ :: nodesOfSelections selections

def nodesOfSelections : List Selection → List Node
  | [] => []
  | selection :: rest => selection.nodes ++ nodesOfSelections rest

def Selection.nodes : Selection → List Node
  | .field field => field.nodes
  | .spread spread => .selection (.spread spread) :: spread.directives.flatMap Directive.nodes
  | .inline fragment => fragment.nodes

def Field.nodes : Field → List Node
  | ⟨place, alias?, name, arguments, directives, set?⟩ =>
      .selection (.field ⟨place, alias?, name, arguments, directives, set?⟩) ::
        (arguments.flatMap Argument.nodes ++ directives.flatMap Directive.nodes ++
          nodesOfOptional set?)

def nodesOfOptional : Option SelectionSet → List Node
  | none => []
  | some set => set.nodes

def InlineFragment.nodes : InlineFragment → List Node
  | ⟨place, condition?, directives, set⟩ =>
      .selection (.inline ⟨place, condition?, directives, set⟩) ::
        (condition?.toList.flatMap NamedType.nodes ++ directives.flatMap Directive.nodes ++
          set.nodes)

end

theorem nodes_of_selections_eq (selections : List Selection) :
    nodesOfSelections selections = selections.flatMap Selection.nodes := by
  induction selections with
  | nil => rw [nodesOfSelections, List.flatMap_nil]
  | cons selection rest ih => rw [nodesOfSelections, ih, List.flatMap_cons]

theorem nodes_of_optional_eq (set? : Option SelectionSet) :
    nodesOfOptional set? = set?.toList.flatMap SelectionSet.nodes := by
  cases set? with
  | none => rw [nodesOfOptional, Option.toList_none, List.flatMap_nil]
  | some set => rw [nodesOfOptional, Option.toList_some, List.flatMap_singleton]

end Selections

section Definitions

def VariableDefinition.nodes (d : VariableDefinition) : List Node :=
  .variableDefinition d :: (d.type.nodes ++ d.default?.toList.flatMap Value.nodes)

def RootTypeDefinition.nodes (d : RootTypeDefinition) : List Node :=
  .rootType d :: d.type.nodes

def InputValueDefinition.nodes (d : InputValueDefinition) : List Node :=
  .inputValue d :: (d.type.nodes ++ d.default?.toList.flatMap Value.nodes ++
    d.directives.flatMap Directive.nodes)

def FieldDefinition.nodes (d : FieldDefinition) : List Node :=
  .fieldDefinition d :: (d.arguments.flatMap InputValueDefinition.nodes ++ d.type.nodes ++
    d.directives.flatMap Directive.nodes)

def EnumValueDefinition.nodes (d : EnumValueDefinition) : List Node :=
  .enumValue d :: d.directives.flatMap Directive.nodes

/-- What is written in the definition of a type with fields. -/
def FieldsDefinition.inner (d : FieldsDefinition) : List Node :=
  d.interfaces.flatMap NamedType.nodes ++ d.directives.flatMap Directive.nodes ++
    d.fields.flatMap FieldDefinition.nodes

def Definition.inner : Definition → List Node
  | .operation d =>
      d.variableDefinitions.flatMap VariableDefinition.nodes ++
        d.directives.flatMap Directive.nodes ++ d.selectionSet.nodes
  | .fragment d =>
      d.typeCondition.nodes ++ d.directives.flatMap Directive.nodes ++ d.selectionSet.nodes
  | .schema d =>
      d.directives.flatMap Directive.nodes ++ d.rootTypes.flatMap RootTypeDefinition.nodes
  | .scalar d => d.directives.flatMap Directive.nodes
  | .object d => d.inner
  | .interface d => d.inner
  | .union d => d.directives.flatMap Directive.nodes ++ d.members.flatMap NamedType.nodes
  | .enum d => d.directives.flatMap Directive.nodes ++ d.values.flatMap EnumValueDefinition.nodes
  | .input d => d.directives.flatMap Directive.nodes ++ d.fields.flatMap InputValueDefinition.nodes
  | .directive d => d.arguments.flatMap InputValueDefinition.nodes

def Definition.nodes (definition : Definition) : List Node :=
  .definition definition :: definition.inner

def Document.nodes (document : Document) : List Node :=
  .document document :: document.definitions.flatMap Definition.nodes

end Definitions

/-! The listing of each node is the node and the listings of its children. -/
section Children
namespace Node

def nodes : Node → List Node
  | document d => d.nodes
  | definition d => d.nodes
  | variableDefinition d => d.nodes
  | selectionSet s => s.nodes
  | selection s => s.nodes
  | argument a => a.nodes
  | value v => v.nodes
  | objectField f => f.nodes
  | directive d => d.nodes
  | type t => t.nodes
  | rootType d => d.nodes
  | fieldDefinition d => d.nodes
  | inputValue d => d.nodes
  | enumValue d => d.nodes

theorem flatMap_optional {α : Type} (item? : Option α) (node : α → Node) :
    (item?.map node).toList.flatMap nodes = item?.toList.flatMap fun item => (node item).nodes := by
  cases item? <;> rfl

/-- The children of a definition, each kind of definition with its own slots. -/
theorem definition_inner_eq (d : Definition) : d.inner = (ofDefinition d).flatMap nodes := by
  cases d with
  | operation d | fragment d | object d | interface d =>
      simp [ofDefinition, Definition.inner, FieldsDefinition.inner, List.flatMap_map, nodes,
        TypeRef.nodes]
  | schema d | scalar d | union d | enum d | input d | directive d =>
      simp [ofDefinition, Definition.inner, List.flatMap_map, nodes, TypeRef.nodes]

theorem nodes_eq (node : Node) : node.nodes = node :: node.children.flatMap nodes := by
  cases node with
  | document d => simp [nodes, Document.nodes, children, List.flatMap_map]
  | definition d => exact congrArg (_ :: ·) (definition_inner_eq d)
  | selectionSet s =>
      cases s
      simp [nodes, SelectionSet.nodes, children, List.flatMap_map, nodes_of_selections_eq]
  | selection s =>
      cases s with
      | field f =>
          cases f
          simp [nodes, Selection.nodes, Field.nodes, children, ofSelection, List.flatMap_map,
            flatMap_optional, nodes_of_optional_eq]
      | spread s => simp [nodes, Selection.nodes, children, ofSelection, List.flatMap_map]
      | inline f =>
          cases f
          simp [nodes, Selection.nodes, InlineFragment.nodes, children, ofSelection,
            List.flatMap_map, flatMap_optional, TypeRef.nodes]
  | value v =>
      rcases v with ⟨place, form⟩
      cases form <;>
        simp [nodes, Value.nodes, ValueForm.nodes, children, ofValue, List.flatMap_map,
          nodes_of_items_eq, nodes_of_object_fields_eq]
  | objectField f =>
      cases f
      simp [nodes, ObjectField.nodes, children]
  | type t => cases t <;> simp [nodes, TypeRef.nodes, NamedType.nodes, children, ofTypeRef]
  | variableDefinition d =>
      simp [nodes, VariableDefinition.nodes, children, flatMap_optional]
  | inputValue d =>
      simp [nodes, InputValueDefinition.nodes, children, flatMap_optional, List.flatMap_map]
  | fieldDefinition d => simp [nodes, FieldDefinition.nodes, children, List.flatMap_map]
  | rootType d => simp [nodes, RootTypeDefinition.nodes, children, TypeRef.nodes]
  | argument a => simp [nodes, Argument.nodes, children]
  | directive d => simp [nodes, Directive.nodes, children, List.flatMap_map]
  | enumValue d => simp [nodes, EnumValueDefinition.nodes, children, List.flatMap_map]

end Node
end Children

/-! The events of a tour that leaves nothing out. -/
section Events

def Event.entered? : Event → Option Node
  | ⟨.entering, node⟩ => some node
  | ⟨.leaving, _⟩ => none

def Event.left? : Event → Option Node
  | ⟨.entering, _⟩ => none
  | ⟨.leaving, node⟩ => some node

/-- Whoever is left is the last of those that were entered and not left. Those that are open
at the start are given, the last of them first, and none is open at the end. -/
inductive Nested : List Node → List Event → Prop where
  | done : Nested [] []
  | enter {node : Node} {above : List Node} {rest : List Event}
      (inside : Nested (node :: above) rest) : Nested above (⟨.entering, node⟩ :: rest)
  | leave {node : Node} {above : List Node} {rest : List Event}
      (outside : Nested above rest) : Nested (node :: above) (⟨.leaving, node⟩ :: rest)

namespace Node

theorem entered_events (node : Node) : node.events.filterMap Event.entered? = node.nodes := by
  induction node using below_induction with
  | step node ih =>
      rw [events_eq, nodes_eq, List.filterMap_cons, Event.entered?, List.filterMap_append,
        List.filterMap_flatMap, List.flatMap_congr ih]
      exact congrArg (_ :: ·) (List.append_nil _)

theorem left_events (node : Node) : (node.events.filterMap Event.left?).Perm node.nodes := by
  induction node using below_induction with
  | step node ih =>
      rw [events_eq, nodes_eq, List.filterMap_cons, Event.left?, List.filterMap_append,
        List.filterMap_flatMap]
      -- The node is left after everything below it.
      exact (List.perm_append_singleton _ _).trans ((List.Perm.flatMap_left _ ih).cons node)

theorem nested_events (node : Node) {above : List Node} {rest : List Event}
    (outside : Nested above rest) : Nested above (node.events ++ rest) := by
  induction node using below_induction generalizing above rest with
  | step node ih =>
      have children : ∀ nodes : List Node, (∀ child ∈ nodes, child ∈ node.children) →
          Nested (node :: above) (nodes.flatMap events ++ ⟨.leaving, node⟩ :: rest) := by
        intro nodes below
        induction nodes with
        | nil => exact .leave outside
        | cons child more later =>
            obtain ⟨first, others⟩ := List.forall_mem_cons.mp below
            rw [List.flatMap_cons, List.append_assoc]
            exact ih child first (later others)
      rw [events_eq, List.cons_append, List.append_assoc]
      exact .enter (children node.children fun _ => id)

end Node
end Events
end GraphQL
