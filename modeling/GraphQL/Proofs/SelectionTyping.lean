import GraphQL.Proofs.BuiltSchemas
import GraphQL.Proofs.RuleReports

/-! The types that a tour knows of are those that are handed down from selection to
selection. So what the rules want of every node of a selection set can be said by recursion
over it. -/
namespace GraphQL

open Inspection

/-! All that the rules that look at single nodes want of a node. -/
section Fine

structure Fine (view : View) (node : Node) : Prop where
  type_known : TypeKnown view node
  condition_composite : ConditionComposite view node
  variable_input : VariableInput view node
  leaf_bare : LeafBare view node
  field_defined : FieldDefined view node
  spread_defined : SpreadDefined view node

theorem fine_respects : View.Respects Fine := by
  intro a b node agrees fine
  have schema := agrees.schema
  have types := agrees.scope.type
  constructor
  · intro type same
    exact schema ▸ fine.type_known type same
  · intro condition found
    exact schema ▸ fine.condition_composite condition found
  · intro definition same
    exact schema ▸ fine.variable_input definition same
  · intro field same
    exact schema ▸ types ▸ fine.leaf_bare field same
  · intro field same
    exact agrees.scope.parent ▸ agrees.scope.field ▸ fine.field_defined field same
  · intro spread same
    exact agrees.document ▸ fine.spread_defined spread same

variable {view : View}

theorem plain_fine {node : Node} (plain : node.Plain) : Fine view node := by
  cases node with
  | argument _ | value _ | objectField _ | directive _ =>
      exact ⟨nofun, nofun, nofun, nofun, nofun, nofun⟩
  | _ => cases plain

theorem always_plain (node : Node) (plain : node.Plain) (view : View) :
    View.Always Fine view node.events := by
  induction node using Node.below_induction generalizing view with
  | step node ih =>
      refine (View.always_node fine_respects node view).mpr ⟨plain_fine plain, ?_⟩
      intro child member
      exact ih child member (Node.plain_child node plain child member) _

/-- Only the name at the core of a type is looked up. -/
theorem always_type (type : TypeRef) (view : View) :
    View.Always Fine view (Node.type type).events ↔
      (view.schema.type? type.innermost.name).isSome := by
  induction type generalizing view with
  | named type =>
      rw [View.always_node fine_respects]
      constructor
      · rintro ⟨fine, _⟩
        exact fine.type_known type rfl
      · intro known
        refine ⟨?_, List.forall_mem_nil _⟩
        constructor
        case type_known =>
          rintro _ ⟨⟩
          exact known
        all_goals rintro _ ⟨⟩
  | list place inner ih | nonNull place inner ih =>
      rw [View.always_node fine_respects, Node.children, Node.ofTypeRef, List.forall_mem_singleton,
        ih]
      apply and_iff_right
      constructor
      all_goals rintro _ ⟨⟩

end Fine

/-! What is allowed of a selection that is made of a type, if that is known. -/
section Allowed
variable (schema : Schema) (document : Document)

structure Allowed (enclosing? : Option SchemaType) (selection : Selection) : Prop where
  defined : ∀ parent field, enclosing? = some parent → selection = .field field →
    parent.isComposite →
      field.name = "__typename" ∨ ∃ definition ∈ parent.fields, definition.name = field.name
  bare : ∀ parent field, enclosing? = some parent → selection = .field field →
    ∀ type, parent.fieldType? schema field.name = some type →
      (field.selectionSet?.isSome ↔ ¬ type.isLeaf)
  composite : ∀ condition, selection.condition? = some condition →
    ∃ type, schema.type? condition.name = some type ∧ type.isComposite
  spread : ∀ spread, selection = .spread spread → (document.fragment? spread.fragment).isSome

end Allowed

section Knowledge

/-- The type in scope is the one that is handed down, unless that is no type of a field. -/
structure Knows (view : View) (enclosing? : Option SchemaType) : Prop where
  type : view.scope.type?.bind view.schema.innermost? = enclosing?.filter SchemaType.isOutput
  member : ∀ type, enclosing? = some type → type ∈ view.schema.types

/-- Within a selection set, the parent in scope is the type that is handed down, if it is
composite. -/
structure Within (view : View) (enclosing? : Option SchemaType) : Prop
    extends Knows view enclosing? where
  parent : view.scope.parent? = enclosing?.filter SchemaType.isComposite

variable {view : View} {enclosing? : Option SchemaType}

theorem filter_output_composite (type? : Option SchemaType) :
    (type?.filter SchemaType.isOutput).filter SchemaType.isComposite =
      type?.filter SchemaType.isComposite := by
  rw [Option.filter_filter]
  congr 1
  funext type
  cases type <;> rfl

theorem bind_composite_of (schema : Schema) (type? : Option TypeExpr) :
    type?.bind (Scope.compositeOf schema) =
      (type?.bind schema.innermost?).filter SchemaType.isComposite := by
  cases type? <;> rfl

theorem filter_is_output (schema : Schema) (type? : Option TypeExpr) :
    (type?.filter (Scope.isOutput schema)).bind schema.innermost? =
      (type?.bind schema.innermost?).filter SchemaType.isOutput := by
  cases type? with
  | none => rfl
  | some type =>
      cases found : schema.innermost? type with
      | none => simp [Option.filter, Scope.isOutput, found]
      | some core =>
          cases output : core.isOutput <;> simp [Option.filter, Scope.isOutput, found, output]

/-- Entering a selection set. -/
theorem Knows.within (knows : Knows view enclosing?) (set : SelectionSet) :
    Within (view.during ⟨.entering, .selectionSet set⟩) enclosing? where
  type := knows.type
  member := knows.member
  parent := by
    have parent : (view.during ⟨.entering, .selectionSet set⟩).scope.parent? =
      view.scope.type?.bind (Scope.compositeOf view.schema) := rfl
    rw [parent, bind_composite_of, knows.type, filter_output_composite]

theorem Within.inline (within : Within view enclosing?) (fragment : InlineFragment) :
    Knows (view.during ⟨.entering, .selection (.inline fragment)⟩)
      ((Selection.inline fragment).inside view.schema enclosing?) := by
  let inner := view.during ⟨.entering, .selection (.inline fragment)⟩
  have entered : inner.scope.type?.bind inner.schema.innermost? =
    (view.scope.inlineType view.schema fragment.typeCondition?).bind view.schema.innermost? := rfl
  cases condition : fragment.typeCondition? with
  | some condition' =>
      constructor
      · rw [entered, condition, Scope.inlineType, Scope.conditionType, filter_is_output,
          Selection.inside, condition]
        rfl
      · rw [Selection.inside, condition]
        intro type found
        exact Named.mem_of_find? found
  | none =>
      constructor
      · -- Lists are left out, but the name at the core stands for the same type.
        have same : (view.scope.type?.map fun type => TypeExpr.named type.innermostName true).bind
            view.schema.innermost? = view.scope.type?.bind view.schema.innermost? := by
          cases view.scope.type? <;> rfl
        rw [entered, condition, Scope.inlineType, filter_is_output, Selection.inside, condition]
        apply (congrArg (Option.filter SchemaType.isOutput) (same.trans within.type)).trans
        simp [Option.filter_filter]
      · rw [Selection.inside, condition]
        exact within.member

theorem look_up_typed (schema : Schema) {parent : SchemaType}
    (composite : parent.isComposite = true) (name : String) :
    ((Scope.lookupField parent name).map OutputField.type).bind schema.innermost? =
      parent.fieldType? schema name := by
  rw [Scope.lookupField, SchemaType.fieldType?, composite, Bool.and_true, if_pos rfl]
  by_cases reserved : name = "__typename"
  · rw [if_pos (show (name == typenameField.name) = true from beq_iff_eq.mpr reserved),
      if_pos reserved]
    rfl
  · rw [if_neg (show ¬ (name == typenameField.name) = true from mt beq_iff_eq.mp reserved),
      if_neg reserved]
    cases Named.find? name parent.fields <;> rfl

/-- Fields have types that are defined and are types of fields. -/
theorem field_type_output {schema : Schema} (built : schema.Built) {parent type : SchemaType}
    (member : parent ∈ schema.types) {name : String}
    (found : parent.fieldType? schema name = some type) :
    type.isOutput = true ∧ type ∈ schema.types := by
  rw [SchemaType.fieldType?] at found
  split at found
  · split at found
    · rw [built.string] at found
      cases found
      exact ⟨rfl, Named.mem_of_find? built.string⟩
    · obtain ⟨field, own, named⟩ := Option.bind_eq_some_iff.mp found
      obtain ⟨core, known, output⟩ := built.field member (Named.mem_of_find? own)
      cases known.symm.trans named
      exact ⟨output, Named.mem_of_find? known⟩
  · cases found

theorem Within.field_type (within : Within view enclosing?) (name : String) :
    ((view.scope.fieldDefinition name).map OutputField.type).bind view.schema.innermost? =
      enclosing?.bind fun parent => parent.fieldType? view.schema name := by
  rw [Scope.fieldDefinition, within.parent]
  cases enclosing? with
  | none => rfl
  | some parent =>
      by_cases composite : parent.isComposite = true
      · rw [Option.filter_some_pos composite]
        exact look_up_typed view.schema composite name
      · rw [Option.filter_some_neg (Bool.eq_false_iff.mpr composite)]
        simp [SchemaType.fieldType?, composite]

/-- The type below a field is a type of fields, so it is known. -/
theorem Within.inside_output (within : Within view enclosing?) (built : view.schema.Built)
    (field : Field) {type : SchemaType}
    (found : (Selection.field field).inside view.schema enclosing? = some type) :
    type.isOutput = true ∧ type ∈ view.schema.types := by
  obtain ⟨parent, same, found⟩ := Option.bind_eq_some_iff.mp found
  exact field_type_output built (within.member parent same) found

theorem Within.field (within : Within view enclosing?) (built : view.schema.Built) (field : Field) :
    Knows (view.during ⟨.entering, .selection (.field field)⟩)
      ((Selection.field field).inside view.schema enclosing?) := by
  refine ⟨?_, fun type found => (within.inside_output built field found).2⟩
  let inner := view.during ⟨.entering, .selection (.field field)⟩
  have entered : inner.scope.type?.bind inner.schema.innermost? =
    (((view.scope.fieldDefinition field.name).map OutputField.type).filter
      (Scope.isOutput view.schema)).bind view.schema.innermost? := rfl
  rw [entered, filter_is_output, within.field_type]
  rfl

end Knowledge

section Selections
variable {view : View} {enclosing? : Option SchemaType}

theorem look_up_some {parent : SchemaType} (composite : parent.isComposite = true) (name : String) :
    (Scope.lookupField parent name).isSome ↔
      name = "__typename" ∨ ∃ definition ∈ parent.fields, definition.name = name := by
  rw [Scope.lookupField, composite, Bool.and_true]
  by_cases reserved : name = "__typename"
  · rw [if_pos (show (name == typenameField.name) = true from beq_iff_eq.mpr reserved)]
    exact iff_of_true rfl (.inl reserved)
  · rw [if_neg (show ¬ (name == typenameField.name) = true from mt beq_iff_eq.mp reserved)]
    exact (Named.has_iff name parent.fields).trans (or_iff_right reserved).symm

theorem Within.defined_iff (within : Within view enclosing?) (name : String) :
    (view.scope.parent?.isSome → (view.scope.fieldDefinition name).isSome) ↔
      ∀ parent, enclosing? = some parent → parent.isComposite →
        name = "__typename" ∨ ∃ definition ∈ parent.fields, definition.name = name := by
  rw [Scope.fieldDefinition, within.parent]
  cases enclosing? with
  | none =>
      apply iff_of_true
      all_goals simp
  | some parent =>
      simp only [Option.some.injEq, forall_eq']
      by_cases composite : parent.isComposite = true
      · rw [Option.filter_some_pos composite, ← look_up_some composite]
        exact ⟨fun found _ => found rfl, fun found _ => found composite⟩
      · rw [Option.filter_some_neg (Bool.eq_false_iff.mpr composite)]
        exact iff_of_true (by simp) fun composite' => absurd composite' composite

theorem Within.bare_iff (within : Within view enclosing?) (built : view.schema.Built)
    (field : Field) :
    LeafBare (view.during ⟨.entering, .selection (.field field)⟩) (.selection (.field field)) ↔
      ∀ parent, enclosing? = some parent →
        ∀ type, parent.fieldType? view.schema field.name = some type →
          (field.selectionSet?.isSome ↔ ¬ type.isLeaf) := by
  have known := (within.field built field).type
  -- What is in scope is filtered, but nothing below a field is filtered out.
  constructor
  · intro bare parent same type found
    have inside : (Selection.field field).inside view.schema enclosing? = some type :=
      Option.bind_eq_some_iff.mpr ⟨parent, same, found⟩
    have output := (within.inside_output built field inside).1
    rw [inside, Option.filter_some_pos output] at known
    obtain ⟨expression, typed, core⟩ := Option.bind_eq_some_iff.mp known
    exact bare field rfl expression typed type core
  · rintro bare _ ⟨⟩ expression typed core found
    have same := known.symm.trans (Option.bind_eq_some_iff.mpr ⟨expression, typed, found⟩)
    have inside := (Option.filter_eq_some_iff.mp same).1
    obtain ⟨parent, same, found⟩ := Option.bind_eq_some_iff.mp inside
    exact bare parent same core found

theorem Within.fine_field (within : Within view enclosing?) (built : view.schema.Built)
    (field : Field) :
    Fine (view.during ⟨.entering, .selection (.field field)⟩) (.selection (.field field)) ↔
      Allowed view.schema view.document enclosing? (.field field) := by
  constructor
  · intro fine
    refine ⟨?_, ?_, nofun, nofun⟩
    · rintro parent _ same ⟨⟩
      exact (within.defined_iff field.name).mp (fine.field_defined field rfl) parent same
    · rintro parent _ same ⟨⟩
      exact (within.bare_iff built field).mp fine.leaf_bare parent same
  · intro allowed
    refine ⟨nofun, nofun, nofun, ?_, ?_, nofun⟩
    · exact (within.bare_iff built field).mpr fun parent same => allowed.bare parent field same rfl
    · rintro _ ⟨⟩
      exact (within.defined_iff field.name).mpr fun parent same =>
        allowed.defined parent field same rfl

theorem Within.fine_selection (within : Within view enclosing?) (built : view.schema.Built)
    (selection : Selection) :
    (Fine (view.during ⟨.entering, .selection selection⟩) (.selection selection) ∧
        ∀ condition, selection.condition? = some condition →
          (view.schema.type? condition.name).isSome) ↔
      Allowed view.schema view.document enclosing? selection := by
  cases selection with
  | field field => exact (and_iff_left nofun).trans (within.fine_field built field)
  | spread spread =>
      constructor
      · rintro ⟨fine, _⟩
        exact ⟨nofun, nofun, nofun, fun _ same => Selection.spread.inj same ▸
          fine.spread_defined spread rfl⟩
      · intro allowed
        refine ⟨⟨nofun, nofun, nofun, nofun, nofun, ?_⟩, nofun⟩
        rintro _ ⟨⟩
        exact allowed.spread spread rfl
  | inline fragment =>
      constructor
      · rintro ⟨fine, known⟩
        refine ⟨nofun, nofun, fun condition found => ?_, nofun⟩
        obtain ⟨type, defined⟩ := Option.isSome_iff_exists.mp (known condition found)
        exact ⟨type, defined, fine.condition_composite condition found type defined⟩
      · intro allowed
        refine ⟨⟨nofun, fun condition found type defined => ?_, nofun, nofun, nofun, nofun⟩, ?_⟩
        · obtain ⟨other, defined', composite⟩ := allowed.composite condition found
          cases defined.symm.trans defined'
          exact composite
        · intro condition found
          obtain ⟨type, defined, _⟩ := allowed.composite condition found
          exact Option.isSome_of_eq_some defined

theorem always_plain_map {α : Type} (items : List α) (node : α → Node)
    (plain : ∀ item, (node item).Plain) (view : View) :
    ∀ child ∈ items.map node, View.Always Fine view child.events := by
  intro child member
  obtain ⟨item, _, rfl⟩ := List.mem_map.mp member
  exact always_plain (node item) (plain item) view

theorem always_directives (directives : List Directive) (view : View) :
    ∀ child ∈ directives.map Node.directive, View.Always Fine view child.events :=
  always_plain_map directives Node.directive (fun _ => trivial) view

theorem forall_mem_optional {α : Type} (item? : Option α) (node : α → Node)
    (holds : Node → Prop) :
    (∀ child ∈ (item?.map node).toList, holds child) ↔
      ∀ item, item? = some item → holds (node item) := by
  cases item? <;> simp

theorem always_children (selection : Selection) (view : View) :
    (∀ child ∈ (Node.selection selection).children, View.Always Fine view child.events) ↔
      (∀ condition, selection.condition? = some condition →
        (view.schema.type? condition.name).isSome) ∧
      ∀ nested, selection.nested? = some nested →
        View.Always Fine view (Node.selectionSet nested).events := by
  cases selection with
  | field field =>
      have arguments := always_plain_map field.arguments Node.argument (fun _ => trivial) view
      have directives := always_directives field.directives view
      simp only [Node.children, Node.ofSelection, List.forall_mem_append, and_iff_right arguments,
        and_iff_right directives, forall_mem_optional]
      apply Iff.symm
      apply and_iff_right
      rintro _ ⟨⟩
  | spread spread =>
      apply iff_of_true (always_directives spread.directives view)
      constructor
      all_goals rintro _ ⟨⟩
  | inline fragment =>
      have directives := always_directives fragment.directives view
      simp only [Node.children, Node.ofSelection, List.forall_mem_append,
        and_iff_left directives, List.forall_mem_singleton, forall_mem_optional]
      apply and_congr (forall₂_congr fun condition _ => always_type (.named condition) view)
      simp only [Selection.nested?, Option.some.injEq, forall_eq']

theorem Within.inside (within : Within view enclosing?) (built : view.schema.Built)
    {selection : Selection} {nested : SelectionSet} (found : selection.nested? = some nested) :
    Knows (view.during ⟨.entering, .selection selection⟩)
      (selection.inside view.schema enclosing?) := by
  cases selection with
  | field field => exact within.field built field
  | spread spread => cases found
  | inline fragment => exact within.inline fragment

/-- What the rules want of a selection set and of everything below it. -/
theorem always_set_iff (set : SelectionSet) (view : View) (enclosing? : Option SchemaType)
    (built : view.schema.Built) (knows : Knows view enclosing?) :
    View.Always Fine view (Node.selectionSet set).events ↔
      ∀ site ∈ set.typed view.schema enclosing?,
        Allowed view.schema view.document site.1 site.2 := by
  induction set using SelectionSet.nested_induction generalizing view enclosing? with
  | step set ih =>
      -- The set makes its parent known, and each selection what is handed down below it.
      have within := knows.within set
      have fine : Fine (view.during ⟨.entering, .selectionSet set⟩) (.selectionSet set) :=
        ⟨nofun, nofun, nofun, nofun, nofun, nofun⟩
      rw [View.always_node fine_respects, and_iff_right fine, Node.children, List.forall_mem_map,
        SelectionSet.typed, SelectionSet.forall_sites]
      apply forall₂_congr
      intro selection member
      rw [View.always_node fine_respects, always_children, ← and_assoc]
      apply and_congr (within.fine_selection built selection)
      apply forall₂_congr
      intro nested found
      exact ih selection member nested found _ _ built (within.inside built found)

end Selections

end GraphQL
