import GraphQL.Proofs.RuleFindings
import GraphQL.Proofs.SelectionTyping

/-! The specified rules are sound and complete: they find nothing in exactly the valid
documents. -/
namespace GraphQL

open Inspection

/-! What the rules want of the definitions of a document. -/
section Definitions

theorem root_type {schema : Schema} {kind : OperationKind} {type : FieldsType}
    (found : schema.root? kind = some type) : schema.type? type.name = some (.object type) := by
  obtain ⟨name, _, object⟩ := Option.bind_eq_some_iff.mp found
  obtain ⟨known, defined, same⟩ := Option.bind_eq_some_iff.mp object
  cases known with
  | object t =>
      cases same
      have named : type.name = name := Named.name_of_find? defined
      rw [named]
      exact defined
  | _ => cases same

theorem knows_root (view : View) (operation : Operation) :
    Knows (view.during ⟨.entering, .definition (.operation operation)⟩)
      ((view.schema.root? operation.kind).map SchemaType.object) := by
  let inner := view.during ⟨.entering, .definition (.operation operation)⟩
  have entered : inner.scope.type?.bind inner.schema.innermost? =
    (Scope.rootType view.schema operation.kind).bind view.schema.innermost? := rfl
  constructor
  · rw [entered, Scope.rootType]
    cases found : view.schema.root? operation.kind with
    | none => rfl
    | some type => exact root_type found
  · intro type found
    obtain ⟨root, defined, rfl⟩ := Option.map_eq_some_iff.mp found
    exact Named.mem_of_find? (root_type defined)

theorem knows_condition (view : View) (fragment : Fragment) :
    Knows (view.during ⟨.entering, .definition (.fragment fragment)⟩)
      (view.schema.type? fragment.typeCondition.name) := by
  let inner := view.during ⟨.entering, .definition (.fragment fragment)⟩
  have entered : inner.scope.type?.bind inner.schema.innermost? =
    (Scope.conditionType view.schema fragment.typeCondition).bind view.schema.innermost? := rfl
  constructor
  · rw [entered, Scope.conditionType, filter_is_output]
    rfl
  · intro type found
    exact Named.mem_of_find? found

theorem innermost_of_ref (type : TypeRef) (nullable : Bool) :
    (TypeExpr.ofRefWith nullable type).innermostName = type.innermost.name := by
  induction type generalizing nullable with
  | named type => rfl
  | list _ inner ih => exact ih true
  | nonNull _ inner ih => exact ih false

theorem always_variable (definition : VariableDefinition) (view : View) :
    View.Always Fine view (Node.variableDefinition definition).events ↔
      ∃ type, view.schema.type? definition.type.innermost.name = some type ∧ type.isInput := by
  have values : ∀ child ∈ (definition.default?.map Node.value).toList,
      View.Always Fine (view.during ⟨.entering, .variableDefinition definition⟩) child.events :=
    (forall_mem_optional _ _ _).mpr fun value _ => always_plain (.value value) trivial _
  have core : view.schema.innermost? (.ofRef definition.type) =
      view.schema.type? definition.type.innermost.name :=
    congrArg view.schema.type? (innermost_of_ref definition.type true)
  rw [View.always_node fine_respects, Node.children, List.forall_mem_cons, always_type,
    and_iff_left values]
  constructor
  · rintro ⟨fine, known⟩
    obtain ⟨type, found⟩ := Option.isSome_iff_exists.mp known
    exact ⟨type, found, fine.variable_input definition rfl type (core.trans found)⟩
  · rintro ⟨type, found, input⟩
    refine ⟨?_, Option.isSome_of_eq_some found⟩
    constructor
    case variable_input =>
      rintro _ ⟨⟩ other found'
      cases found.symm.trans (core.symm.trans found')
      exact input
    all_goals rintro _ ⟨⟩

theorem always_operation (view : View) (built : view.schema.Built) (operation : Operation) :
    View.Always Fine view (Node.definition (.operation operation)).events ↔
      (∀ definition ∈ operation.variableDefinitions,
        ∃ type, view.schema.type? definition.type.innermost.name = some type ∧ type.isInput) ∧
      ∀ site ∈ operation.selectionSet.typed view.schema
          ((view.schema.root? operation.kind).map SchemaType.object),
        Allowed view.schema view.document site.1 site.2 := by
  have fine : Fine (view.during ⟨.entering, .definition (.operation operation)⟩)
      (.definition (.operation operation)) := ⟨nofun, nofun, nofun, nofun, nofun, nofun⟩
  have directives := always_directives operation.directives
    (view.during ⟨.entering, .definition (.operation operation)⟩)
  rw [View.always_node fine_respects, and_iff_right fine, Node.children, Node.ofDefinition,
    List.forall_mem_append, List.forall_mem_append, and_iff_left directives,
    List.forall_mem_singleton, List.forall_mem_map]
  apply and_congr (forall₂_congr fun definition _ => always_variable definition _)
  exact always_set_iff _ _ _ built (knows_root view operation)

theorem always_fragment (view : View) (built : view.schema.Built) (fragment : Fragment) :
    View.Always Fine view (Node.definition (.fragment fragment)).events ↔
      (∃ type, view.schema.type? fragment.typeCondition.name = some type ∧ type.isComposite) ∧
      ∀ site ∈ fragment.selectionSet.typed view.schema
          (view.schema.type? fragment.typeCondition.name),
        Allowed view.schema view.document site.1 site.2 := by
  have directives := always_directives fragment.directives
    (view.during ⟨.entering, .definition (.fragment fragment)⟩)
  rw [View.always_node fine_respects, Node.children, Node.ofDefinition, List.cons_append,
    List.forall_mem_cons, List.forall_mem_append, and_iff_right directives,
    List.forall_mem_singleton, always_type, ← and_assoc]
  refine and_congr ?_ (always_set_iff _ _ _ built (knows_condition view fragment))
  constructor
  · rintro ⟨fine, known⟩
    obtain ⟨type, found⟩ := Option.isSome_iff_exists.mp known
    exact ⟨type, found, fine.condition_composite _ rfl type found⟩
  · rintro ⟨type, found, composite⟩
    refine ⟨?_, Option.isSome_of_eq_some found⟩
    constructor
    case condition_composite =>
      rintro _ ⟨⟩ other found'
      cases found.symm.trans found'
      exact composite
    all_goals rintro _ ⟨⟩

end Definitions

section Documents
variable {schema : Schema} {document : Document}

/-- An executable document has no definitions but operations and fragments. -/
theorem forall_definitions (executable : document.Executable) {holds : Definition → Prop} :
    (∀ definition ∈ document.definitions, holds definition) ↔
      (∀ operation ∈ document.operations, holds (.operation operation)) ∧
        ∀ fragment ∈ document.fragments, holds (.fragment fragment) := by
  constructor
  · intro each
    exact ⟨fun operation member => each _ ((mem_operations document operation).mp member),
      fun fragment member => each _ ((mem_fragments document fragment).mp member)⟩
  · rintro ⟨operations, fragments⟩ definition member
    cases definition with
    | operation d => exact operations d ((mem_operations document d).mpr member)
    | fragment d => exact fragments d ((mem_fragments document d).mpr member)
    | _ => cases executable.2 _ member

theorem forall_typed {holds : Option SchemaType × Selection → Prop} :
    (∀ site ∈ document.typed schema, holds site) ↔
      (∀ operation ∈ document.operations,
        ∀ site ∈ operation.selectionSet.typed schema
          ((schema.root? operation.kind).map SchemaType.object), holds site) ∧
      ∀ fragment ∈ document.fragments,
        ∀ site ∈ fragment.selectionSet.typed schema (schema.type? fragment.typeCondition.name),
          holds site := by
  rw [Document.typed, List.forall_mem_append, List.forall_mem_flatMap, List.forall_mem_flatMap]

theorem always_document (built : schema.Built) (executable : document.Executable) :
    View.Always Fine ⟨schema, document, .empty⟩ (Node.document document).events ↔
      (∀ definition ∈ document.variableDefinitions,
        ∃ type, schema.type? definition.type.innermost.name = some type ∧ type.isInput) ∧
      (∀ fragment ∈ document.fragments,
        ∃ type, schema.type? fragment.typeCondition.name = some type ∧ type.isComposite) ∧
      ∀ site ∈ document.typed schema, Allowed schema document site.1 site.2 := by
  have fine (view : View) : Fine view (.document document) :=
    ⟨nofun, nofun, nofun, nofun, nofun, nofun⟩
  rw [View.always_node fine_respects, and_iff_right (fine _), Node.children, List.forall_mem_map,
    forall_definitions executable, forall_typed, Document.variableDefinitions,
    List.forall_mem_flatMap]
  have operations := forall₂_congr fun operation (_ : operation ∈ document.operations) =>
    always_operation ⟨schema, document, .empty⟩ built operation
  have fragments := forall₂_congr fun fragment (_ : fragment ∈ document.fragments) =>
    always_fragment ⟨schema, document, .empty⟩ built fragment
  apply (and_congr operations fragments).trans
  simp only [imp_and, forall_and]
  rw [and_and_and_comm, and_assoc]

/-- The selections of a document, told from those that are typed. -/
theorem typed_selections (schema : Schema) (document : Document) :
    (document.typed schema).map Prod.snd = document.selections := by
  simp only [Document.typed, Document.selections, Document.selectionSets, List.map_append,
    List.map_flatMap, List.flatMap_append, List.flatMap_map, SelectionSet.typed,
    SelectionSet.sites_selections]

theorem typed_selection {site : Option SchemaType × Selection}
    (member : site ∈ document.typed schema) : site.2 ∈ document.selections := by
  rw [← typed_selections schema document]
  exact List.mem_map_of_mem member

theorem Document.Valid.allowed (valid : document.Valid schema) :
    ∀ site ∈ document.typed schema, Allowed schema document site.1 site.2 := by
  rintro ⟨enclosing?, selection⟩ member
  have present := typed_selection member
  constructor
  · rintro parent field rfl rfl
    exact valid.fields_defined parent field member
  · rintro parent field rfl rfl
    exact valid.leaves_bare parent field member
  · intro condition found
    refine valid.conditions_composite condition (List.mem_append_right _ ?_)
    exact List.mem_filterMap.mpr ⟨selection, present, found⟩
  · rintro spread rfl
    exact (fragment_defined_iff document _).mpr (valid.spreads_defined spread present)

/-- A document is valid if its variables, fragments and selections are as they should be. -/
theorem valid_iff (schema : Schema) (document : Document) :
    document.Valid schema ↔
      ((∀ definition ∈ document.variableDefinitions,
        ∃ type, schema.type? definition.type.innermost.name = some type ∧ type.isInput) ∧
      (∀ fragment ∈ document.fragments,
        ∃ type, schema.type? fragment.typeCondition.name = some type ∧ type.isComposite) ∧
      ∀ site ∈ document.typed schema, Allowed schema document site.1 site.2) ∧
      ∀ fragment ∈ document.fragments, ∃ operation ∈ document.operations,
        document.Uses operation.selectionSet fragment.name := by
  constructor
  · intro valid
    refine ⟨⟨valid.variables_input, fun fragment member => ?_, valid.allowed⟩, valid.fragments_used⟩
    exact valid.conditions_composite _ (List.mem_append_left _ (List.mem_map_of_mem member))
  · rintro ⟨⟨input, fragments, allowed⟩, used⟩
    -- No selection is left out when types are handed down.
    have each : ∀ selection ∈ document.selections, ∃ site ∈ document.typed schema,
        site.2 = selection := by
      intro selection member
      rw [← typed_selections schema document] at member
      exact List.mem_map.mp member
    have composite : ∀ condition ∈ document.conditions,
        ∃ type, schema.type? condition.name = some type ∧ type.isComposite := by
      intro condition member
      rcases List.mem_append.mp member with own | inside
      · obtain ⟨fragment, defined, rfl⟩ := List.mem_map.mp own
        exact fragments fragment defined
      · obtain ⟨selection, present, found⟩ := List.mem_filterMap.mp inside
        obtain ⟨site, member, rfl⟩ := each selection present
        exact (allowed site member).composite condition found
    refine ⟨fun type member => ?_, composite, input, ?_, ?_, ?_, used⟩
    · rcases List.mem_append.mp member with own | condition
      · obtain ⟨definition, present, rfl⟩ := List.mem_map.mp own
        obtain ⟨type, found, _⟩ := input definition present
        exact Option.isSome_of_eq_some found
      · obtain ⟨type, found, _⟩ := composite _ condition
        exact Option.isSome_of_eq_some found
    · intro parent field member
      exact (allowed _ member).defined parent field rfl rfl
    · intro parent field member
      exact (allowed _ member).bare parent field rfl rfl
    · intro spread member
      obtain ⟨site, typed, same⟩ := each _ member
      exact (fragment_defined_iff document _).mp ((allowed site typed).spread spread same)

end Documents

section Completeness

/-- Calm rules find nothing if and only if each of them alone reports nothing. -/
theorem nothing_found_alone (schema : Schema) {document : Document} {rules : List Rule}
    (intact : (Node.document document).Intact) (impartial : ∀ rule ∈ rules, rule.Impartial)
    (calm : ∀ rule ∈ rules, rule.Calm) :
    validate schema document rules = .ok [] ↔ ∀ rule ∈ rules,
      rule.reporter.solo 0 ⟨schema, document, .empty⟩ (Node.document document).events = [] := by
  obtain ⟨found, validated, perm⟩ := found_rule_by_rule schema intact impartial calm
  rw [validated, Except.ok.injEq, ← List.flatMap_eq_nil_iff]
  constructor
  · rintro rfl
    exact List.nil_perm.mp perm
  · intro nothing
    rw [nothing] at perm
    exact List.perm_nil.mp perm

theorem always_fine_iff (view : View) (events : List Event) :
    View.Always Fine view events ↔
      View.Always TypeKnown view events ∧ View.Always ConditionComposite view events ∧
      View.Always VariableInput view events ∧ View.Always LeafBare view events ∧
      View.Always FieldDefined view events ∧ View.Always SpreadDefined view events := by
  constructor
  · intro fine
    exact ⟨fun entry member entering => (fine entry member entering).type_known,
      fun entry member entering => (fine entry member entering).condition_composite,
      fun entry member entering => (fine entry member entering).variable_input,
      fun entry member entering => (fine entry member entering).leaf_bare,
      fun entry member entering => (fine entry member entering).field_defined,
      fun entry member entering => (fine entry member entering).spread_defined⟩
  · rintro ⟨known, composite, input, bare, defined, spread⟩ entry member entering
    exact ⟨known entry member entering, composite entry member entering,
      input entry member entering, bare entry member entering, defined entry member entering,
      spread entry member entering⟩

/-- Validation by the specified rules finds nothing wrong with a document if and only if the
document is valid. -/
theorem nothing_found_iff_valid {schema : Schema} {document : Document} (built : schema.Built)
    (executable : document.Executable) :
    validate schema document specifiedRules = .ok [] ↔ document.Valid schema := by
  have nodes : ∀ event ∈ (Node.document document).events, event.node.Executable :=
    Node.all_events Node.executable_child (.document document) executable
  have intact : (Node.document document).Intact := Node.Executable.intact executable
  -- Six rules look at one node at a time, and the last one at the fragments only.
  rw [nothing_found_alone schema intact specified_rules_impartial specified_rules_calm, valid_iff,
    ← always_document built executable, always_fine_iff,
    ← no_unused_fragments_reports_nil schema document]
  simp only [specifiedRules, List.forall_mem_cons, known_type_names_checks.reports_nil _ nodes,
    fragments_on_composite_types_checks.reports_nil _ nodes,
    variables_are_input_types_checks.reports_nil _ nodes,
    scalar_leafs_checks.reports_nil _ nodes, fields_on_correct_type_checks.reports_nil _ nodes,
    known_fragment_names_checks.reports_nil _ nodes, and_assoc]
  have none_left (holds : Rule → Prop) : ∀ rule ∈ [], holds rule := List.forall_mem_nil holds
  rw [and_iff_left (none_left _)]

/-- An operation that selects a field, and spreads a fragment that selects the name of the type. -/
theorem nothing_found_in_hello :
    let query : SchemaType := .object ⟨.written .start, none, "Query", [],
      [⟨.written .start, none, "hello", [], .named "String" true⟩]⟩
    let schema : Schema := ⟨builtinTypes ++ [query], builtinRules, [], "Query", none, none⟩
    let field (name : String) : Selection := .field ⟨.start, none, name, [], [], none⟩
    let set : SelectionSet := ⟨.start, [field "hello", .spread ⟨.start, "names", []⟩]⟩
    let document : Document := ⟨[.operation ⟨.start, .query, none, [], [], set⟩,
      .fragment ⟨.start, "names", ⟨.start, "Query"⟩, [], ⟨.start, [field "__typename"]⟩⟩]⟩
    schema.Built ∧ document.Executable ∧ validate schema document specifiedRules = .ok [] := by
  intro query schema field set document
  let definition : Definition := .object ⟨.start, none, "Query", [], [],
    [⟨.start, none, "hello", [], .named ⟨.start, "String"⟩, []⟩]⟩
  have built : schema.Built :=
    ⟨[⟨[definition]⟩], ⟨builtinTypes ++ [query], [], none, []⟩, rfl, rfl⟩
  have executable : document.Executable := by
    simp [Document.Executable, document, Definition.Executable]
  have typed : document.typed schema =
      [(some query, field "hello"), (some query, .spread ⟨.start, "names", []⟩),
        (some query, field "__typename")] := rfl
  have valid : document.Valid schema := by
    rw [valid_iff, typed]
    refine ⟨⟨List.forall_mem_nil _, ?_, ?_⟩, ?_⟩
    · exact List.forall_mem_singleton.mpr ⟨query, rfl, rfl⟩
    · refine List.forall_mem_cons.mpr ⟨⟨?_, ?_, nofun, nofun⟩, List.forall_mem_cons.mpr
        ⟨⟨nofun, nofun, nofun, ?_⟩, List.forall_mem_singleton.mpr ⟨?_, ?_, nofun, nofun⟩⟩⟩
      · rintro _ _ ⟨⟩ ⟨⟩ _
        exact .inr ⟨_, List.mem_singleton_self _, rfl⟩
      · rintro _ _ ⟨⟩ ⟨⟩ _ ⟨⟩
        decide
      · rintro _ ⟨⟩
        rfl
      · rintro _ _ ⟨⟩ ⟨⟩ _
        exact .inl rfl
      · rintro _ _ ⟨⟩ ⟨⟩ _ ⟨⟩
        decide
    · have inside : Selection.spread ⟨.start, "names", []⟩ ∈ set.all :=
        List.mem_cons_of_mem _ (List.mem_singleton_self _)
      exact List.forall_mem_singleton.mpr ⟨_, List.mem_singleton_self _, .spread inside⟩
  exact ⟨built, executable, (nothing_found_iff_valid built executable).mpr valid⟩

end Completeness
end GraphQL
