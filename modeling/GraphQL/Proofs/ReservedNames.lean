import GraphQL.Proofs.KeptDefinitions
import GraphQL.Validation.Scope

/-! Names that are kept for introspection. No type takes one of them. Fields, parameters,
values and directives are not asked for their names, so a schema has the reserved names
that its documents write there, and a field that is defined as `__typename` is hidden by
the one that every composite type has. -/
namespace GraphQL

section Names

def Reserved (name : String) : Prop := ['_', '_'] <+: name.toList

theorem reserved_iff (name : String) : Reserved name ↔ Draft.isReserved name = true := by
  rw [Reserved, Draft.isReserved]
  split
  · next rest start => simp [start]
  · next other =>
    simp only [Bool.false_eq_true, iff_false]
    rintro ⟨rest, start⟩
    exact other rest start.symm

instance : DecidablePred Reserved := fun name => decidable_of_iff _ (reserved_iff name).symm

def OutputField.names (field : OutputField) : List String :=
  field.name :: field.parameters.map InputValue.name

def DirectiveRule.names (rule : DirectiveRule) : List String :=
  rule.name :: rule.parameters.map InputValue.name

/-- The names of all that a type is made of. -/
def SchemaType.innerNames : SchemaType → List String
  | object t | interface t => t.fields.flatMap OutputField.names
  | enum t => t.values.map EnumValue.name
  | input t => t.fields.map InputValue.name
  | builtin _ | scalar _ | union _ => []

/-- All names in a schema but those of the types. -/
def Schema.innerNames (schema : Schema) : List String :=
  schema.types.flatMap SchemaType.innerNames ++ schema.directives.flatMap DirectiveRule.names

def FieldDefinition.names (d : FieldDefinition) : List String :=
  d.name :: d.arguments.map InputValueDefinition.name

def DirectiveDefinition.names (d : DirectiveDefinition) : List String :=
  d.name :: d.arguments.map InputValueDefinition.name

namespace Definition

/-- The names of all that a definition of a type lists. -/
def innerNames : Definition → List String
  | object d | interface d => d.fields.flatMap FieldDefinition.names
  | enum d => d.values.map EnumValueDefinition.name
  | input d => d.fields.map InputValueDefinition.name
  | _ => []

/-- The names that a definition gives, except to a type. -/
def givenNames : Definition → List String
  | directive d => d.names
  | d => d.innerNames

end Definition
end Names

/-! Names are kept like all else that is written, up to repetitions. -/
section Keeping
variable {Item α : Type} {Keeps : Item → α → Prop} {name : String}

theorem mem_names_of_kept {written : List Item} {table : List α}
    (all : List.Forall₂ Keeps written table) {given : Item → List String}
    {names : α → List String}
    (same : ∀ item kept, Keeps item kept → (name ∈ names kept ↔ name ∈ given item)) :
    name ∈ table.flatMap names ↔ name ∈ written.flatMap given := by
  induction all with
  | nil => rfl
  | cons head _ ih => simp only [List.flatMap_cons, List.mem_append, same _ _ head, ih]

theorem FieldKept.names_iff {d : FieldDefinition} {field : OutputField} (kept : FieldKept d field) :
    name ∈ field.names ↔ name ∈ d.names := by
  rw [OutputField.names, FieldDefinition.names, List.mem_cons, List.mem_cons, kept.name]
  exact or_congr_right (kept.parameters.names name)

theorem RuleKept.names_iff {d : DirectiveDefinition} {rule : DirectiveRule}
    (kept : RuleKept d rule) : name ∈ rule.names ↔ name ∈ d.names := by
  rw [DirectiveRule.names, DirectiveDefinition.names, List.mem_cons, List.mem_cons, kept.name]
  exact or_congr_right (kept.parameters.names name)

theorem TypeKept.names_iff {d : Definition} {type : SchemaType} (kept : TypeKept d type) :
    name ∈ type.innerNames ↔ name ∈ d.innerNames := by
  cases kept with
  | scalar d => rfl
  | object all | interface all => exact mem_names_of_kept all.fields fun _ _ => FieldKept.names_iff
  | union all => rfl
  | enum all => exact all.values.names name
  | input all =>
      have names := names_of_kept (fun _ _ kept => InputKept.name kept) all.fields
      exact iff_of_eq (congrArg (name ∈ ·) names)

theorem given_names_of_type {d : Definition} (defines : d.definesType = true) :
    d.givenNames = d.innerNames := by
  cases d with
  | directive d => cases defines
  | _ => rfl

theorem mem_given_names (definitions : List Definition) :
    (∃ d ∈ definitions, name ∈ d.givenNames) ↔
      name ∈ (definitions.filter Definition.definesType).flatMap Definition.innerNames ∨
        name ∈ (definitions.filterMap Definition.directive?).flatMap DirectiveDefinition.names := by
  simp only [List.mem_flatMap, List.mem_filter, List.mem_filterMap]
  constructor
  · rintro ⟨d, member, given⟩
    cases d with
    | directive rule => exact .inr ⟨rule, ⟨_, member, rfl⟩, given⟩
    | operation _ | fragment _ | schema _ => cases given
    | _ => exact .inl ⟨_, ⟨member, rfl⟩, given⟩
  · rintro (⟨d, ⟨member, defines⟩, given⟩ | ⟨rule, ⟨d, member, is_rule⟩, given⟩)
    · exact ⟨d, member, given_names_of_type defines ▸ given⟩
    · cases d with
      | directive _ =>
          cases is_rule
          exact ⟨_, member, given⟩
      | _ => cases is_rule

end Keeping

section Schemas
variable {documents : List Document} {schema : Schema}

theorem builtin_names_unreserved {name : String} (reserved : Reserved name) :
    name ∉ builtinTypes.map SchemaType.name ∧ name ∉ builtinRules.flatMap DirectiveRule.names := by
  have types : ∀ name ∈ builtinTypes.map SchemaType.name, ¬ Reserved name := by decide
  have rules : ∀ name ∈ builtinRules.flatMap DirectiveRule.names, ¬ Reserved name := by decide
  exact ⟨fun member => types name member reserved, fun member => rules name member reserved⟩

theorem mem_names_with_builtins {rules : List DirectiveRule} {name : String}
    (reserved : Reserved name) :
    name ∈ (Draft.withBuiltins rules).flatMap DirectiveRule.names ↔
      name ∈ rules.flatMap DirectiveRule.names := by
  -- A directive that is added because it lacks gives no reserved name.
  have added : name ∉ (builtinRules.filter fun rule => !Named.has rule.name rules).flatMap
      DirectiveRule.names := by
    intro member
    obtain ⟨rule, listed, own⟩ := List.mem_flatMap.mp member
    have builtin : rule ∈ builtinRules := (List.mem_filter.mp listed).1
    exact (builtin_names_unreserved reserved).2 (List.mem_flatMap.mpr ⟨rule, builtin, own⟩)
  rw [Draft.withBuiltins, List.flatMap_append, List.mem_append, or_iff_left added]

theorem origin_of_type (made : schemaOf documents = .ok schema) {type : SchemaType}
    (member : type ∈ schema.types) :
    type ∈ builtinTypes ∨ Draft.isReserved type.name = false ∧
      ∃ d : Definition, d.itemNames.Nodup ∧ TypeKept d type := by
  obtain ⟨⟨_, acceptable⟩, built⟩ := schema_of_iff.mp made
  rw [(Draft.build_ok built).1] at member
  refine (List.mem_append.mp member).imp_right fun contributed => ?_
  refine ⟨acceptable.unreserved type contributed, ?_⟩
  obtain ⟨d, _, _, contributes⟩ := contributed_type contributed
  obtain ⟨distinct, keeps⟩ := Definition.contribution_keeps contributes
  cases keeps with
  | type _ all => exact ⟨d, distinct, all⟩

theorem reserved_names_iff (made : schemaOf documents = .ok schema) {name : String}
    (reserved : Reserved name) : name ∈ schema.innerNames ↔
      ∃ d ∈ documents.flatMap Document.definitions, name ∈ d.givenNames := by
  obtain ⟨⟨each, _⟩, built⟩ := schema_of_iff.mp made
  obtain ⟨_, _, types, directives, _⟩ := Draft.build_iff.mp built
  obtain ⟨types_kept, rules_kept⟩ := contents_keep each
  have builtin : builtinTypes.flatMap SchemaType.innerNames = [] := rfl
  rw [Schema.innerNames, types, directives, List.mem_append, mem_names_with_builtins reserved,
    mem_given_names]
  apply or_congr
  · rw [Contents.draft, List.flatMap_append, builtin, List.nil_append]
    exact mem_names_of_kept types_kept fun _ _ => TypeKept.names_iff
  · exact mem_names_of_kept rules_kept fun _ _ => RuleKept.names_iff

end Schemas

section LookUps
variable {documents : List Document} {schema : Schema} {type : SchemaType} {field : OutputField}

/-- Fields that are written can be told from the one that is built in. -/
theorem written_fields {d : Definition} (kept : TypeKept d type) (own : field ∈ type.fields) :
    type.isComposite = true ∧ ∃ place, field.origin = .written place := by
  have written {definitions : List FieldDefinition} {fields : List OutputField}
      (all : List.Forall₂ FieldKept definitions fields) (own : field ∈ fields) :
      ∃ place, field.origin = .written place := by
    induction all with
    | nil => cases own
    | cons head _ ih =>
        rcases List.mem_cons.mp own with rfl | later
        · exact ⟨_, head.origin⟩
        · exact ih later
  cases kept with
  | object all | interface all => exact ⟨rfl, written all.fields own⟩
  | scalar _ | union _ | enum _ | input _ => cases own

theorem distinct_fields_of_type {d : Definition} (kept : TypeKept d type)
    (distinct : d.itemNames.Nodup) : Named.Distinct type.fields := by
  cases kept with
  | object all | interface all =>
      have names := names_of_kept (fun _ _ kept => FieldKept.name kept) all.fields
      exact (congrArg List.Nodup names).mpr distinct
  | scalar _ | union _ | enum _ | input _ => exact List.nodup_nil

/-- A field is found by its name in the scope as it is in the schema, unless its name is
that of the field which is built in. -/
theorem looked_up_iff (made : schemaOf documents = .ok schema) (member : type ∈ schema.types)
    (own : field ∈ type.fields) : Named.find? field.name type.fields = some field ∧
      (Scope.lookupField type field.name = some field ↔ field.name ≠ typenameField.name) := by
  rcases origin_of_type made member with builtin | ⟨_, d, distinct, kept⟩
  · have fieldless : ∀ type ∈ builtinTypes, type.fields = [] := by
      simp [builtinTypes, SchemaType.fields]
    rw [fieldless type builtin] at own
    cases own
  · have found : Named.find? field.name type.fields = some field :=
      Named.find_some_of_mem (distinct_fields_of_type kept distinct) own
    obtain ⟨composite, place, written⟩ := written_fields kept own
    refine ⟨found, ?_⟩
    rw [Scope.lookupField, composite, Bool.and_true, found]
    by_cases same : field.name = typenameField.name
    · rw [if_pos (beq_iff_eq.mpr same)]
      refine iff_of_false (fun hidden => ?_) (not_not_intro same)
      rw [← Option.some.inj hidden] at written
      cases written
    · rw [if_neg fun hidden => same (beq_iff_eq.mp hidden)]
      exact iff_of_true rfl same

/-- In a schema that was made of documents no type has a reserved name. All other reserved
names in it are those that the documents give, and a field is looked up differently by
the scope and by the schema exactly if it is defined as `__typename`. -/
theorem reserved_names_are_as_written (made : schemaOf documents = .ok schema) :
    (∀ type ∈ schema.types, ¬ Reserved type.name) ∧
      (∀ name, Reserved name → (name ∈ schema.innerNames ↔
        ∃ d ∈ documents.flatMap Document.definitions, name ∈ d.givenNames)) ∧
      ∀ type ∈ schema.types, ∀ field ∈ type.fields,
        Named.find? field.name type.fields = some field ∧
          (Scope.lookupField type field.name = some field ↔ field.name ≠ "__typename") := by
  refine ⟨fun type member reserved => ?_, fun name reserved => reserved_names_iff made reserved,
    fun type member field own => looked_up_iff made member own⟩
  rcases origin_of_type made member with builtin | ⟨free, _⟩
  · exact (builtin_names_unreserved reserved).1 (List.mem_map_of_mem builtin)
  · rw [(reserved_iff _).mp reserved] at free
    cases free

section Typename

def queryOf (field parameter : String) : FieldsDefinition :=
  ⟨.start, none, "Query", [], [],
    [⟨.start, none, field, [⟨.start, none, parameter, .named ⟨.start, "Int"⟩, none, []⟩],
      .named ⟨.start, "Int"⟩, []⟩]⟩

/-- A parameter keeps its reserved name, and its field is found. -/
theorem reserved_parameter_is_kept :
    let definition : Definition := .object (queryOf "a" "__x")
    ∃ schema, schemaOf [⟨[definition]⟩] = .ok schema ∧
      (∀ type ∈ schema.types, ¬ Reserved type.name) ∧
      Reserved "__x" ∧ "__x" ∈ definition.givenNames ∧ "__x" ∈ schema.innerNames ∧
      ∀ type ∈ schema.types, ∀ field ∈ type.fields,
        Named.find? field.name type.fields = some field ∧
          (Scope.lookupField type field.name = some field ↔ field.name ≠ "__typename") := by
  intro definition
  have makes : (schemaOf [⟨[definition]⟩]).isOk = true := by decide +kernel
  obtain ⟨schema, made⟩ := exists_of_is_ok makes
  obtain ⟨types, names, fields⟩ := reserved_names_are_as_written made
  have reserved : Reserved "__x" := by decide
  have given : "__x" ∈ definition.givenNames := by decide
  have kept := (names "__x" reserved).mpr ⟨definition, List.mem_cons_self, given⟩
  exact ⟨schema, made, types, reserved, given, kept, fields⟩

/-- A type can define the field that it has anyway, which is hidden then. -/
theorem typename_field_is_hidden :
    ∃ schema, schemaOf [⟨[.object (queryOf "__typename" "x")]⟩] = .ok schema ∧
      ∃ type ∈ schema.types, ∃ field ∈ type.fields, Reserved field.name ∧
        Named.find? field.name type.fields = some field ∧
        Scope.lookupField type field.name ≠ some field := by
  let query := queryOf "__typename" "x"
  have makes : (schemaOf [⟨[.object query]⟩]).isOk = true := by decide +kernel
  obtain ⟨schema, made⟩ := exists_of_is_ok makes
  have types : schema.types = builtinTypes ++ [.object (.ofDefinition query)] :=
    (Draft.build_ok (schema_of_iff.mp made).2).1
  let type : SchemaType := .object (.ofDefinition query)
  have member : type ∈ schema.types := by
    rw [types]
    exact List.mem_append_right _ List.mem_cons_self
  obtain ⟨field, fields⟩ : ∃ field, type.fields = [field] := ⟨_, rfl⟩
  have own : field ∈ type.fields := fields ▸ List.mem_cons_self
  have named : field.name = "__typename" := by
    cases fields
    rfl
  obtain ⟨found, iff⟩ := looked_up_iff made member own
  refine ⟨schema, made, type, member, field, own, ?_, found, fun looked_up => ?_⟩
  · rw [named]
    decide
  · exact iff.mp looked_up named

end Typename
end LookUps
end GraphQL
