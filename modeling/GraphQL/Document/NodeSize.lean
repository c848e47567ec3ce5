import GraphQL.Document.Node

/-! A child of a node is smaller than the node, slot by slot. -/
namespace GraphQL.Node

section Slots
variable {α β : Type} [SizeOf α] [SizeOf β] {node : Node}

theorem size_of_member {items : List α} {item : β} (wrap : α → β) (bound : Nat)
    (wrapped : ∀ a, sizeOf (wrap a) ≤ sizeOf a + bound)
    (member : item ∈ items.map wrap) : sizeOf item < sizeOf items + bound := by
  obtain ⟨a, inside, rfl⟩ := List.mem_map.mp member
  have smaller := List.sizeOf_lt_of_mem inside
  have := wrapped a
  omega

theorem size_of_optional {item? : Option α} {item : β} (wrap : α → β) (bound : Nat)
    (wrapped : ∀ a, sizeOf (wrap a) ≤ sizeOf a + bound)
    (member : item ∈ (item?.map wrap).toList) : sizeOf item < sizeOf item? + bound := by
  cases item? with
  | none => simp at member
  | some a =>
      simp only [Option.map_some, Option.toList_some, List.mem_singleton] at member
      have := wrapped a
      simp only [Option.some.sizeOf_spec, member]
      omega

theorem directive_size {directives : List Directive}
    (member : node ∈ directives.map directive) : sizeOf node < sizeOf directives + 1 :=
  size_of_member _ 1 (fun _ => by simp; omega) member

theorem argument_size {items : List Argument}
    (member : node ∈ items.map argument) : sizeOf node < sizeOf items + 1 :=
  size_of_member _ 1 (fun _ => by simp; omega) member

theorem input_size {items : List InputValueDefinition}
    (member : node ∈ items.map inputValue) : sizeOf node < sizeOf items + 1 :=
  size_of_member _ 1 (fun _ => by simp; omega) member

theorem named_size {items : List NamedType}
    (member : node ∈ items.map fun t => type (.named t)) : sizeOf node < sizeOf items + 2 :=
  size_of_member _ 2 (fun _ => by simp; omega) member

theorem default_size {item? : Option Value}
    (member : node ∈ (item?.map value).toList) : sizeOf node < sizeOf item? + 1 :=
  size_of_optional _ 1 (fun _ => by simp; omega) member

end Slots

section Parents
variable {node : Node}

theorem selection_child_size {selection : Selection} (member : node ∈ ofSelection selection) :
    sizeOf node < sizeOf selection + 1 := by
  cases selection with
  | field f =>
      cases f
      simp only [ofSelection, List.mem_append] at member
      rcases member with (h | h) | h
      · have := argument_size h
        simp; omega
      · have := directive_size h
        simp; omega
      · have := size_of_optional selectionSet 1 (fun _ => by simp; omega) h
        simp; omega
  | spread s =>
      cases s
      simp only [ofSelection] at member
      have := directive_size member
      simp; omega
  | inline f =>
      cases f
      simp only [ofSelection, List.mem_append, List.mem_singleton] at member
      rcases member with (h | h) | h
      · have := size_of_optional (fun t => type (.named t)) 2 (fun _ => by simp; omega) h
        simp; omega
      · have := directive_size h
        simp; omega
      · subst h
        simp only [selectionSet.sizeOf_spec, Selection.inline.sizeOf_spec,
          InlineFragment.mk.sizeOf_spec]
        omega

theorem fields_child_size {d : FieldsDefinition}
    (member : node ∈ d.interfaces.map (fun t => type (.named t)) ++ d.directives.map directive ++
      d.fields.map fieldDefinition) : sizeOf node < sizeOf d + 1 := by
  cases d
  simp only [List.mem_append] at member
  rcases member with (h | h) | h
  · have := named_size h
    simp; omega
  · have := directive_size h
    simp; omega
  · have := size_of_member fieldDefinition 1 (fun _ => by simp; omega) h
    simp; omega

theorem definition_child_size {d : Definition} (member : node ∈ ofDefinition d) :
    sizeOf node < sizeOf d + 1 := by
  cases d with
  | operation d =>
      cases d
      simp only [ofDefinition, List.mem_append, List.mem_singleton] at member
      rcases member with (h | h) | h
      · have := size_of_member variableDefinition 1 (fun _ => by simp; omega) h
        simp; omega
      · have := directive_size h
        simp; omega
      · subst h
        simp only [selectionSet.sizeOf_spec, Definition.operation.sizeOf_spec,
          Operation.mk.sizeOf_spec]
        omega
  | fragment d =>
      cases d
      simp only [ofDefinition, List.cons_append, List.mem_cons, List.mem_append,
        List.not_mem_nil, or_false] at member
      rcases member with h | h | h
      · subst h
        simp; omega
      · have := directive_size h
        simp; omega
      · subst h
        simp only [selectionSet.sizeOf_spec, Definition.fragment.sizeOf_spec,
          Fragment.mk.sizeOf_spec]
        omega
  | schema d =>
      cases d
      simp only [ofDefinition, List.mem_append] at member
      rcases member with h | h
      · have := directive_size h
        simp; omega
      · have := size_of_member rootType 1 (fun _ => by simp; omega) h
        simp; omega
  | scalar d =>
      cases d
      simp only [ofDefinition] at member
      have := directive_size member
      simp; omega
  | object d | interface d =>
      have := fields_child_size member
      simp; omega
  | union d =>
      cases d
      simp only [ofDefinition, List.mem_append] at member
      rcases member with h | h
      · have := directive_size h
        simp; omega
      · have := named_size h
        simp; omega
  | enum d =>
      cases d
      simp only [ofDefinition, List.mem_append] at member
      rcases member with h | h
      · have := directive_size h
        simp; omega
      · have := size_of_member enumValue 1 (fun _ => by simp; omega) h
        simp; omega
  | input d =>
      cases d
      simp only [ofDefinition, List.mem_append] at member
      rcases member with h | h
      · have := directive_size h
        simp; omega
      · have := input_size h
        simp; omega
  | directive d =>
      cases d
      simp only [ofDefinition] at member
      have := input_size member
      simp; omega

theorem value_child_size {form : ValueForm} (member : node ∈ ofValue form) :
    sizeOf node < sizeOf form + 1 := by
  cases form with
  | list items =>
      have := size_of_member value 1 (fun _ => by simp; omega) member
      simp; omega
  | object fields =>
      have := size_of_member objectField 1 (fun _ => by simp; omega) member
      simp; omega
  | _ => simp [ofValue] at member

theorem child_size {parent child : Node} (member : child ∈ parent.children) :
    sizeOf child < sizeOf parent := by
  cases parent with
  | document d =>
      cases d
      simp only [children] at member
      have := size_of_member definition 1 (fun _ => by simp; omega) member
      simp; omega
  | definition d =>
      have := definition_child_size member
      simp; omega
  | variableDefinition d =>
      cases d
      simp only [children, List.mem_cons] at member
      rcases member with h | h
      · subst h
        simp; omega
      · have := default_size h
        simp; omega
  | selectionSet s =>
      cases s
      simp only [children] at member
      have := size_of_member selection 1 (fun _ => by simp; omega) member
      simp; omega
  | selection s =>
      have := selection_child_size member
      simp; omega
  | argument a =>
      cases a
      simp only [children, List.mem_singleton] at member
      subst member
      simp only [value.sizeOf_spec, argument.sizeOf_spec, Argument.mk.sizeOf_spec]
      omega
  | value v =>
      cases v
      simp only [children] at member
      have := value_child_size member
      simp; omega
  | objectField f =>
      cases f
      simp only [children, List.mem_singleton] at member
      subst member
      simp only [value.sizeOf_spec, objectField.sizeOf_spec, ObjectField.mk.sizeOf_spec]
      omega
  | directive d =>
      cases d
      simp only [children] at member
      have := argument_size member
      simp; omega
  | type t =>
      cases t with
      | named t => simp [children, ofTypeRef] at member
      | list place inner =>
          simp only [children, ofTypeRef, List.mem_singleton] at member
          subst member
          simp only [type.sizeOf_spec, TypeRef.list.sizeOf_spec]
          omega
      | nonNull place inner =>
          simp only [children, ofTypeRef, List.mem_singleton] at member
          subst member
          simp only [type.sizeOf_spec, TypeRef.nonNull.sizeOf_spec]
          omega
  | rootType d =>
      cases d
      simp only [children, List.mem_singleton] at member
      subst member
      rename_i place operation type
      cases place
      simp; omega
  | fieldDefinition d =>
      cases d
      simp only [children, List.mem_append, List.mem_cons] at member
      rcases member with h | h | h
      · have := input_size h
        simp; omega
      · subst h
        simp; omega
      · have := directive_size h
        simp; omega
  | inputValue d =>
      cases d
      simp only [children, List.cons_append, List.mem_cons, List.mem_append] at member
      rcases member with h | h | h
      · subst h
        simp; omega
      · have := default_size h
        simp; omega
      · have := directive_size h
        simp; omega
  | enumValue d =>
      cases d
      simp only [children] at member
      have := directive_size member
      simp; omega

end Parents

end GraphQL.Node
