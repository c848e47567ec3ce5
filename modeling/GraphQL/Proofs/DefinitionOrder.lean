import GraphQL.Proofs.PossibleTypes
import GraphQL.Proofs.WellFormedTypes

/-! The order of definitions does not count, nor where documents end. Definitions in
another order contribute the same things, these fit together or not whatever their order
is, and the schemas that are built from them are equal. Only a default value that is not a
number tells a schema from another one, and from itself. -/
namespace GraphQL

section Defaults

def defaultsOf (parameters : List InputValue) : List Value :=
  parameters.filterMap InputValue.default?

def OutputField.defaults (field : OutputField) : List Value := defaultsOf field.parameters

def DirectiveRule.defaults (rule : DirectiveRule) : List Value := defaultsOf rule.parameters

def SchemaType.defaults : SchemaType → List Value
  | .input t => defaultsOf t.fields
  | type => type.fields.flatMap OutputField.defaults

/-- The default values of all parameters and of all fields of input objects. -/
def Schema.defaults (schema : Schema) : List Value :=
  schema.types.flatMap SchemaType.defaults ++ schema.directives.flatMap DirectiveRule.defaults

def writtenDefaults (definitions : List InputValueDefinition) : List Value :=
  definitions.filterMap InputValueDefinition.default?

def Definition.defaults : Definition → List Value
  | .object d | .interface d => d.fields.flatMap fun field => writtenDefaults field.arguments
  | .input d => writtenDefaults d.fields
  | .directive d => writtenDefaults d.arguments
  | _ => []

end Defaults

/-! Comparing schemas looks names up on one side. No part of what definitions contribute has
a name twice, so it is equal to itself if the default values in it are. -/
section SelfEquality

mutual

theorem Value.same_self (v : Value) : v.same v = v.isNumeric := by
  rcases v with ⟨place, form⟩
  rw [Value.same, Value.isNumeric, beq_self_eq_true, Bool.true_and]
  exact ValueForm.same_self form

theorem ValueForm.same_self (form : ValueForm) : form.same form = form.isNumeric := by
  cases form with
  | double d =>
      rw [ValueForm.same, ValueForm.isNumeric]
      exact d.same_self
  | list items =>
      rw [ValueForm.same, ValueForm.isNumeric]
      exact same_items_self items
  | object fields =>
      rw [ValueForm.same, ValueForm.isNumeric]
      exact same_fields_self fields
  | _ => simp [ValueForm.same, ValueForm.isNumeric]

theorem same_items_self (items : List Value) : sameItems items items = numericItems items := by
  cases items with
  | nil => rw [sameItems, numericItems]
  | cons item rest => rw [sameItems, numericItems, Value.same_self item, same_items_self rest]

theorem ObjectField.same_self (field : ObjectField) : field.same field = field.isNumeric := by
  rcases field with ⟨place, name, value⟩
  rw [ObjectField.same, ObjectField.isNumeric, beq_self_eq_true, beq_self_eq_true, Bool.true_and,
    Bool.true_and]
  exact Value.same_self value

theorem same_fields_self (fields : List ObjectField) :
    sameFields fields fields = numericFields fields := by
  cases fields with
  | nil => rw [sameFields, numericFields]
  | cons field rest =>
      rw [sameFields, numericFields, ObjectField.same_self field, same_fields_self rest]

end

theorem InputValue.same_self (v : InputValue) : (v == v) = v.default?.all Value.isNumeric := by
  rcases v with ⟨origin, name, type, default?⟩
  have default : (default? == default?) = default?.all Value.isNumeric := by
    cases default? with
    | none => rfl
    | some value => exact value.same_self
  have all : (InputValue.mk origin name type default? == ⟨origin, name, type, default?⟩) =
      (origin == origin && (name == name && (type == type && default? == default?))) := rfl
  rw [all, default]
  simp

theorem all_defaults (parameters : List InputValue) :
    (defaultsOf parameters).all Value.isNumeric =
      parameters.all fun v => v.default?.all Value.isNumeric := by
  rw [defaultsOf, List.all_filterMap]
  refine congrArg parameters.all (funext fun v => ?_)
  cases v.default? <;> rfl

theorem same_parameters_self {parameters : List InputValue}
    (distinct : Named.Distinct parameters) :
    sameParameters parameters parameters = (defaultsOf parameters).all Value.isNumeric := by
  rw [sameParameters, Named.same_as_perm _ distinct (List.Perm.refl _), all_defaults]
  exact congrArg parameters.all (funext InputValue.same_self)

/-- Things are equal to themselves as far as their parts are. -/
theorem all_same_self {α : Type} {same : α → α → Bool} {defaults : α → List Value} {items : List α}
    (each : ∀ item ∈ items, same item item = (defaults item).all Value.isNumeric) :
    (items.all fun item => same item item) = (items.flatMap defaults).all Value.isNumeric := by
  rw [List.all_flatMap, Bool.eq_iff_iff, List.all_eq_true, List.all_eq_true]
  exact forall₂_congr fun item member => by rw [each item member]

theorem distinct_parameters (definitions : List InputValueDefinition) :
    Named.Distinct (parametersOf definitions) := Named.distinct_of_list _

theorem OutputField.same_self {field : OutputField}
    (distinct : Named.Distinct field.parameters) :
    field.same field = field.defaults.all Value.isNumeric := by
  simp [OutputField.same, OutputField.defaults, same_parameters_self distinct]

theorem DirectiveRule.same_self {rule : DirectiveRule}
    (distinct : Named.Distinct rule.parameters) :
    rule.same rule = rule.defaults.all Value.isNumeric := by
  simp [DirectiveRule.same, DirectiveRule.defaults, same_parameters_self distinct]

theorem EnumType.same_self (d : EnumDefinition) :
    (ofDefinition d).same (ofDefinition d) = true := by
  have each (value : EnumValue) : (value == value) = true := by
    have all : (value == value) = (value.origin == value.origin && value.name == value.name) := rfl
    rw [all, beq_self_eq_true, beq_self_eq_true, Bool.and_self]
  have distinct := Named.distinct_of_list (d.values.map EnumValue.ofDefinition)
  have values := Named.same_as_perm (· == ·) distinct (List.Perm.refl _)
  simp [EnumType.same, ofDefinition, values, each]

namespace Draft

theorem collect_fields_iff {α : Type} [Named α] {type : String} {origin : α → Origin}
    {fields collected : List α} :
    collectFields type origin fields = .ok collected ↔
      Named.Distinct fields ∧ collected = fields := by
  have each (fields : List α) (field : α) (next : List α) (distinct : Named.Distinct fields) :
      addField type origin fields field = .ok next ↔
        Named.Distinct (fields ++ [field]) ∧ next = fields ++ [field] := by
    rw [Named.distinct_append_single, addField]
    cases Named.find? (Named.nameOf field) fields with
    | none => simp [distinct, eq_comm]
    | some first => simp
  exact fold_collects id (fun _ _ => Named.distinct_append_left) each [] fields collected
    List.nodup_nil

theorem fields_type_same {d : FieldsDefinition} {type : FieldsType}
    (made : fieldsType d = .ok type) :
    type.same type = (type.fields.flatMap OutputField.defaults).all Value.isNumeric := by
  obtain ⟨fields, collected, made⟩ := bind_ok made
  obtain ⟨distinct, rfl⟩ := collect_fields_iff.mp collected
  cases made
  have each : ∀ field ∈ d.fields.map OutputField.ofDefinition,
      field.same field = field.defaults.all Value.isNumeric := by
    intro field member
    obtain ⟨d, _, rfl⟩ := List.mem_map.mp member
    exact OutputField.same_self (distinct_parameters d.arguments)
  have fields := Named.same_as_perm OutputField.same distinct (List.Perm.refl _)
  simp only [FieldsType.same, fields, beq_self_eq_true, Bool.true_and]
  exact all_same_self each

theorem input_type_same {d : InputObjectDefinition} {type : InputObjectType}
    (made : inputType d = .ok type) :
    type.same type = (defaultsOf type.fields).all Value.isNumeric := by
  obtain ⟨fields, collected, made⟩ := bind_ok made
  obtain ⟨distinct, rfl⟩ := collect_fields_iff.mp collected
  cases made
  simp [InputObjectType.same, same_parameters_self distinct]

theorem union_type_same (type : UnionType) : type.same type = true := by
  simp [UnionType.same, sameNames]

end Draft

namespace Definition
variable {d : Definition}

theorem type_same {type : SchemaType} {place : Position}
    (contributed : d.contribution = .ok (.type type place)) :
    type.same type = type.defaults.all Value.isNumeric := by
  cases d with
  | operation d => cases contributed
  | fragment d => cases contributed
  | schema d => cases contributed
  | directive d => cases contributed
  | scalar d =>
      cases contributed
      have all (t : ScalarType) : (t == t) =
        (t.origin == t.origin && (t.description? == t.description? && t.name == t.name)) := rfl
      simp [SchemaType.same, SchemaType.defaults, SchemaType.fields, all]
  | enum d =>
      cases contributed
      exact EnumType.same_self d
  | object d | interface d =>
      obtain ⟨type, made, contributed⟩ := bind_ok contributed
      cases contributed
      exact Draft.fields_type_same made
  | union d =>
      obtain ⟨type, made, contributed⟩ := bind_ok contributed
      cases contributed
      exact Draft.union_type_same type
  | input d =>
      obtain ⟨type, made, contributed⟩ := bind_ok contributed
      cases contributed
      exact Draft.input_type_same made

theorem directive_same {rule : DirectiveRule}
    (contributed : d.contribution = .ok (.directive rule)) :
    rule.same rule = rule.defaults.all Value.isNumeric := by
  cases d with
  | directive d =>
      cases contributed
      exact DirectiveRule.same_self (distinct_parameters d.arguments)
  | object d | interface d | union d | input d =>
      obtain ⟨type, made, contributed⟩ := bind_ok contributed
      cases contributed
  | _ => cases contributed

end Definition

end SelfEquality

/-! The default values of what definitions contribute are written in the definitions. -/
section WrittenDefaults

theorem defaults_of_made (definitions : List InputValueDefinition) :
    defaultsOf (definitions.map InputValue.ofDefinition) = writtenDefaults definitions := by
  rw [defaultsOf, List.filterMap_map]
  rfl

theorem defaults_of_parameters (definitions : List InputValueDefinition) :
    defaultsOf (parametersOf definitions) ⊆ writtenDefaults definitions := by
  rw [← defaults_of_made]
  exact List.filterMap_subset _ (Named.of_list_subset _)

theorem fields_type_defaults {d : FieldsDefinition} {type : FieldsType}
    (made : Draft.fieldsType d = .ok type) :
    type.fields.flatMap OutputField.defaults ⊆
      d.fields.flatMap fun field => writtenDefaults field.arguments := by
  obtain ⟨fields, collected, made⟩ := bind_ok made
  obtain ⟨_, rfl⟩ := Draft.collect_fields_iff.mp collected
  cases made
  intro value member
  obtain ⟨field, listed, own⟩ := List.mem_flatMap.mp member
  obtain ⟨written, defined, rfl⟩ := List.mem_map.mp listed
  exact List.mem_flatMap.mpr ⟨written, defined, defaults_of_parameters written.arguments own⟩

namespace Definition
variable {d : Definition}

theorem type_defaults {type : SchemaType} {place : Position}
    (contributed : d.contribution = .ok (.type type place)) : type.defaults ⊆ d.defaults := by
  cases d with
  | object d | interface d =>
      obtain ⟨type, made, contributed⟩ := bind_ok contributed
      cases contributed
      exact fields_type_defaults made
  | union d =>
      obtain ⟨type, made, contributed⟩ := bind_ok contributed
      cases contributed
      exact List.nil_subset _
  | input d =>
      obtain ⟨type, made, contributed⟩ := bind_ok contributed
      obtain ⟨fields, collected, made⟩ := bind_ok made
      obtain ⟨_, rfl⟩ := Draft.collect_fields_iff.mp collected
      cases made
      cases contributed
      intro value member
      rwa [SchemaType.defaults, defaults_of_made] at member
  | scalar d | enum d =>
      cases contributed
      exact List.nil_subset _
  | _ => cases contributed

theorem directive_defaults {rule : DirectiveRule}
    (contributed : d.contribution = .ok (.directive rule)) : rule.defaults ⊆ d.defaults := by
  cases d with
  | directive d =>
      cases contributed
      exact defaults_of_parameters d.arguments
  | object d | interface d | union d | input d =>
      obtain ⟨type, made, contributed⟩ := bind_ok contributed
      cases contributed
  | _ => cases contributed

end Definition

end WrittenDefaults

/-! Whether types fit together is asked of look-ups only. -/
section LookUps
variable {types types' : List SchemaType}

theorem refers_congr (same : ∀ name, Named.find? name types = Named.find? name types')
    (asked : SchemaType → Prop) (type : TypeExpr) :
    Refers types asked type ↔ Refers types' asked type := by
  rw [Refers, Refers, same]

theorem is_object_congr (same : ∀ name, Named.find? name types = Named.find? name types')
    (name : String) : IsObject types name ↔ IsObject types' name := by
  rw [IsObject, IsObject, same]

theorem is_interface_congr (same : ∀ name, Named.find? name types = Named.find? name types')
    (name : String) (interface : FieldsType) :
    IsInterface types name interface ↔ IsInterface types' name interface := by
  rw [IsInterface, IsInterface, same]

theorem SchemaType.Fits.congr (same : ∀ name, Named.find? name types = Named.find? name types')
    {type : SchemaType} (fits : type.Fits types) : type.Fits types' := by
  constructor
  · exact fun field own => (refers_congr same _ _).mp (fits.fields field own)
  · exact fun field own parameter listed =>
      (refers_congr same _ _).mp (fits.parameters field own parameter listed)
  · exact fun field own => (refers_congr same _ _).mp (fits.inputFields field own)
  · intro name listed
    obtain ⟨interface, found⟩ := fits.interfaces name listed
    exact ⟨interface, (is_interface_congr same _ _).mp found⟩
  · exact fun name listed => (is_object_congr same _).mp (fits.members name listed)
  · intro object made name listed interface found
    exact fits.implements object made name listed interface ((is_interface_congr same _ _).mpr found)

theorem WellFormed.perm {rules rules' : List DirectiveRule} (distinct : Named.Distinct types)
    (perm : types.Perm types') (perm_rules : rules.Perm rules') (well : WellFormed types rules) :
    WellFormed types' rules' := by
  have same := Named.find_perm distinct perm
  constructor
  · intro type member
    exact (well.each type (perm.mem_iff.mpr member)).congr same
  · intro rule member parameter listed
    have fits := well.directives rule (perm_rules.mem_iff.mpr member)
    exact (refers_congr same _ _).mp (fits parameter listed)

end LookUps

section Order

theorem eq_of_perm_of_short {Item : Type} {items items' : List Item} (short : items.length ≤ 1)
    (perm : items.Perm items') : items = items' := by
  match items, short with
  | [], _ => exact (List.nil_perm.mp perm).symm
  | [item], _ => exact (List.singleton_perm.mp perm)

namespace Draft
variable {draft draft' : Draft}

/-- Two drafts that hold the same things, in whatever order. -/
structure Alike (draft draft' : Draft) : Prop where
  types : draft.types.Perm draft'.types
  directives : draft.directives.Perm draft'.directives
  schemaPlace? : draft.schemaPlace? = draft'.schemaPlace?
  roots : draft.roots = draft'.roots

theorem Alike.root_name (alike : draft.Alike draft') (kind : OperationKind) :
    draft.rootName? kind = draft'.rootName? kind := by
  rw [rootName?, rootName?, alike.roots, alike.schemaPlace?, Named.has_perm alike.types]

theorem Alike.rooted (alike : draft.Alike draft') (distinct : Named.Distinct draft.types)
    (rooted : draft.Rooted) : draft'.Rooted := by
  obtain ⟨⟨query, named⟩, objects⟩ := rooted
  constructor
  · exact ⟨query, alike.root_name .query ▸ named⟩
  · intro kind name named
    rw [← alike.root_name] at named
    exact (is_object_congr (Named.find_perm distinct alike.types) name).mp (objects kind name named)

theorem Alike.with_builtins (alike : draft.Alike draft') :
    (withBuiltins draft.directives).Perm (withBuiltins draft'.directives) := by
  have same : (fun rule : DirectiveRule => !Named.has rule.name draft.directives) =
      fun rule => !Named.has rule.name draft'.directives := by
    funext rule
    rw [Named.has_perm alike.directives]
  rw [withBuiltins, withBuiltins, same]
  exact alike.directives.append_right _

theorem Alike.builds (alike : draft.Alike draft') (distinct : Named.Distinct draft.types)
    (builds : ∃ schema, draft.build = .ok schema) : ∃ schema, draft'.build = .ok schema := by
  obtain ⟨well, rooted⟩ := builds_iff.mp builds
  exact builds_iff.mpr
    ⟨well.perm distinct alike.types alike.with_builtins, alike.rooted distinct rooted⟩

theorem distinct_with_builtins {directives : List DirectiveRule}
    (distinct : Named.Distinct directives) : Named.Distinct (withBuiltins directives) := by
  have builtins : (builtinRules.map DirectiveRule.name).Nodup := by decide
  rw [Named.Distinct, withBuiltins, List.map_append, List.nodup_append]
  refine ⟨distinct, builtins.sublist (List.filter_sublist.map _), ?_⟩
  -- The built-in directives that are added have names that are still free.
  rintro name known _ added rfl
  obtain ⟨rule, member, rfl⟩ := List.mem_map.mp added
  have free : Named.find? rule.name directives = none := by
    simpa [Named.has] using (List.mem_filter.mp member).2
  exact Named.find_none_iff.mp free known

theorem builtin_rule_same (rule : DirectiveRule) (builtin : rule ∈ builtinRules) :
    rule.same rule = rule.defaults.all Value.isNumeric := by
  have distinct : ∀ rule ∈ builtinRules, (rule.parameters.map InputValue.name).Nodup := by decide
  exact DirectiveRule.same_self (distinct rule builtin)

/-- Drafts that are alike make equal schemas, as far as what they hold is equal to itself. -/
theorem Alike.same_schema (alike : draft.Alike draft') (distinct : Named.Distinct draft.types)
    (distinct_rules : Named.Distinct draft.directives)
    (types : ∀ type ∈ draft.types, type.same type = type.defaults.all Value.isNumeric)
    (rules : ∀ rule ∈ draft.directives, rule.same rule = rule.defaults.all Value.isNumeric)
    {schema schema' : Schema}
    (built : draft.build = .ok schema) (built' : draft'.build = .ok schema') :
    schema.same schema' = schema.defaults.all Value.isNumeric := by
  -- Types and rules are rearranged, the table is made anew from the types, and the names
  -- of the root types do not depend on any order.
  obtain ⟨_, _, own_types, own_rules, own_possible, own_roots⟩ := build_iff.mp built
  obtain ⟨_, _, types', rules', possible', roots'⟩ := build_iff.mp built'
  have same_types : Named.sameAs SchemaType.same schema.types schema'.types =
      (schema.types.flatMap SchemaType.defaults).all Value.isNumeric := by
    rw [own_types, types', Named.same_as_perm _ distinct alike.types]
    exact all_same_self types
  have same_rules : Named.sameAs DirectiveRule.same schema.directives schema'.directives =
      (schema.directives.flatMap DirectiveRule.defaults).all Value.isNumeric := by
    rw [own_rules, rules',
      Named.same_as_perm _ (distinct_with_builtins distinct_rules) alike.with_builtins]
    refine all_same_self fun rule member => ?_
    rcases List.mem_append.mp member with written | added
    · exact rules rule written
    · exact builtin_rule_same rule (List.mem_filter.mp added).1
  have same_possible : Named.sameAs Possible.same schema.possible schema'.possible = true := by
    rw [own_possible, possible']
    exact Draft.same_possible alike.types
  have same_root (kind : OperationKind) : schema.rootName? kind = schema'.rootName? kind := by
    rw [own_roots, roots', alike.root_name]
  have query : schema.query = schema'.query := Option.some.inj (same_root .query)
  have mutation : schema.mutation? = schema'.mutation? := same_root .mutation
  have subscription : schema.subscription? = schema'.subscription? := same_root .subscription
  simp [Schema.same, Schema.defaults, same_types, same_rules, same_possible, query, mutation,
    subscription]

end Draft

end Order

section Definitions
variable {definitions definitions' : List Definition}

/-- What definitions contribute does not depend on their order. -/
theorem contents_perm (perm : definitions.Perm definitions') :
    (Contents.ofDefinitions definitions).types.Perm (Contents.ofDefinitions definitions').types ∧
    (Contents.ofDefinitions definitions).rules.Perm (Contents.ofDefinitions definitions').rules ∧
    (Contents.ofDefinitions definitions).schemas.Perm
      (Contents.ofDefinitions definitions').schemas := by
  have contributions := perm.filterMap fun d : Definition => d.contribution.toOption
  exact ⟨contributions.filterMap _, contributions.filterMap _, contributions.filterMap _⟩

theorem Loadable.perm (perm : definitions.Perm definitions') (loadable : Loadable definitions) :
    Loadable definitions' := by
  obtain ⟨each, unreserved, distinct, rules, schemas, roots⟩ := loadable
  obtain ⟨perm_types, perm_rules, perm_schemas⟩ := contents_perm perm
  constructor
  · exact fun d member => each d (perm.mem_iff.mpr member)
  · constructor
    · exact fun type member => unreserved type (perm_types.mem_iff.mpr member)
    · exact (Named.distinct_perm (perm_types.append_left builtinTypes)).mp distinct
    · exact (Named.distinct_perm perm_rules).mp rules
    · rwa [← perm_schemas.length_eq]
    · exact ((perm_schemas.flatMap_right _).map Prod.fst).nodup_iff.mp roots

theorem Loadable.alike (perm : definitions.Perm definitions') (loadable : Loadable definitions) :
    (Contents.ofDefinitions definitions).draft.Alike
      (Contents.ofDefinitions definitions').draft := by
  obtain ⟨types, rules, schemas⟩ := contents_perm perm
  have same := eq_of_perm_of_short loadable.acceptable.schemas schemas
  constructor
  · exact types.append_left builtinTypes
  · exact rules
  · exact congrArg (fun schemas => schemas.head?.map SchemaDefinition.position) same
  · exact congrArg (List.flatMap SchemaDefinition.roots) same

theorem contributed_type {type : SchemaType}
    (member : type ∈ (Contents.ofDefinitions definitions).types) :
    ∃ d ∈ definitions, ∃ place, d.contribution = .ok (.type type place) := by
  obtain ⟨contribution, listed, is_type⟩ := List.mem_filterMap.mp member
  obtain ⟨d, defined, made⟩ := Definition.mem_contributions.mp listed
  cases contribution with
  | type _ place =>
      cases is_type
      exact ⟨d, defined, place, made⟩
  | directive _ => cases is_type
  | schema _ => cases is_type

theorem contributed_rule {rule : DirectiveRule}
    (member : rule ∈ (Contents.ofDefinitions definitions).rules) :
    ∃ d ∈ definitions, d.contribution = .ok (.directive rule) := by
  obtain ⟨contribution, listed, is_rule⟩ := List.mem_filterMap.mp member
  obtain ⟨d, defined, made⟩ := Definition.mem_contributions.mp listed
  cases contribution with
  | type _ _ => cases is_rule
  | directive _ =>
      cases is_rule
      exact ⟨d, defined, made⟩
  | schema _ => cases is_rule

theorem contributed_types_same (type : SchemaType)
    (member : type ∈ (Contents.ofDefinitions definitions).draft.types) :
    type.same type = type.defaults.all Value.isNumeric := by
  rcases List.mem_append.mp member with builtin | contributed
  · have same : ∀ type ∈ builtinTypes, type.same type = type.defaults.all Value.isNumeric := by
      simp [builtinTypes, SchemaType.same, SchemaType.defaults, SchemaType.fields]
    exact same type builtin
  · obtain ⟨d, _, place, made⟩ := contributed_type contributed
    exact Definition.type_same made

theorem contributed_rules_same (rule : DirectiveRule)
    (member : rule ∈ (Contents.ofDefinitions definitions).draft.directives) :
    rule.same rule = rule.defaults.all Value.isNumeric := by
  obtain ⟨d, _, made⟩ := contributed_rule member
  exact Definition.directive_same made

/-- What is built in has no default values. -/
theorem built_defaults {schema : Schema}
    (built : (Contents.ofDefinitions definitions).draft.build = .ok schema) {value : Value}
    (member : value ∈ schema.defaults) : ∃ d ∈ definitions, value ∈ d.defaults := by
  obtain ⟨_, _, types, rules, _⟩ := Draft.build_iff.mp built
  rw [Schema.defaults, types, rules] at member
  rcases List.mem_append.mp member with of_type | of_rule
  · obtain ⟨type, listed, own⟩ := List.mem_flatMap.mp of_type
    rcases List.mem_append.mp listed with builtin | contributed
    · have none_built : ∀ type ∈ builtinTypes, type.defaults = [] := by decide
      rw [none_built type builtin] at own
      cases own
    · obtain ⟨d, defined, place, made⟩ := contributed_type contributed
      exact ⟨d, defined, Definition.type_defaults made own⟩
  · obtain ⟨rule, listed, own⟩ := List.mem_flatMap.mp of_rule
    rcases List.mem_append.mp listed with contributed | added
    · obtain ⟨d, defined, made⟩ := contributed_rule contributed
      exact ⟨d, defined, Definition.directive_defaults made own⟩
    · have none_built : ∀ rule ∈ builtinRules, rule.defaults = [] := by decide
      rw [none_built rule (List.mem_filter.mp added).1] at own
      cases own

end Definitions

section Documents
variable {documents documents' : List Document}

/-- The schema that documents make when they are loaded one after the other. -/
def schemaOf (documents : List Document) : Except SchemaError Schema :=
  documents.foldlM Draft.load Draft.empty >>= Draft.build

theorem schema_of_iff {schema : Schema} :
    schemaOf documents = .ok schema ↔
      Loadable (documents.flatMap Document.definitions) ∧
        (Contents.ofDefinitions (documents.flatMap Document.definitions)).draft.build =
          .ok schema := by
  constructor
  · intro made
    obtain ⟨draft, loaded, built⟩ := bind_ok made
    obtain ⟨loadable, rfl⟩ := (load_iff documents draft).mp loaded
    exact ⟨loadable, built⟩
  · rintro ⟨loadable, built⟩
    rw [schemaOf, (load_iff documents _).mpr ⟨loadable, rfl⟩]
    exact built

theorem Schema.Built.made {schema : Schema} (built : schema.Built) :
    ∃ documents, schemaOf documents = .ok schema := by
  obtain ⟨documents, draft, loaded, built⟩ := built
  exact ⟨documents, by rw [schemaOf, loaded]; exact built⟩

/-- Documents that make a schema, and the types of the schema. -/
theorem built_of_makes (makes : (schemaOf documents).isOk = true) :
    ∃ schema : Schema, schema.Built ∧ schema.types =
      (Contents.ofDefinitions (documents.flatMap Document.definitions)).draft.types := by
  obtain ⟨schema, made⟩ := exists_of_is_ok makes
  obtain ⟨draft, loaded, built⟩ := bind_ok made
  obtain ⟨_, rfl⟩ := (load_iff documents draft).mp loaded
  exact ⟨schema, ⟨documents, _, loaded, built⟩, (Draft.build_ok built).1⟩

theorem makes_of_perm
    (perm : (documents.flatMap Document.definitions).Perm
      (documents'.flatMap Document.definitions))
    (makes : ∃ schema, schemaOf documents = .ok schema) :
    ∃ schema, schemaOf documents' = .ok schema := by
  obtain ⟨schema, made⟩ := makes
  obtain ⟨loadable, built⟩ := schema_of_iff.mp made
  obtain ⟨schema', built'⟩ :=
    (loadable.alike perm).builds loadable.acceptable.types ⟨schema, built⟩
  exact ⟨schema', schema_of_iff.mpr ⟨loadable.perm perm, built'⟩⟩

/-- Definitions make a schema in whatever order and however they are cut into documents,
or in none. The schemas are equal exactly if every default value that got into them is made
of numbers where it has doubles, and so they are if the definitions have no other ones. -/
theorem schema_ignores_order
    (perm : (documents.flatMap Document.definitions).Perm
      (documents'.flatMap Document.definitions)) :
    ((∃ schema, schemaOf documents = .ok schema) ↔
      ∃ schema', schemaOf documents' = .ok schema') ∧
    ∀ schema schema', schemaOf documents = .ok schema → schemaOf documents' = .ok schema' →
      (schema.same schema' = true ↔ ∀ value ∈ schema.defaults, value.isNumeric = true) ∧
      ((∀ d ∈ documents.flatMap Document.definitions, ∀ value ∈ d.defaults,
        value.isNumeric = true) → schema.same schema' = true) := by
  refine ⟨⟨makes_of_perm perm, makes_of_perm perm.symm⟩, fun schema schema' made made' => ?_⟩
  obtain ⟨loadable, built⟩ := schema_of_iff.mp made
  obtain ⟨_, built'⟩ := schema_of_iff.mp made'
  have same := (loadable.alike perm).same_schema loadable.acceptable.types
    loadable.acceptable.rules contributed_types_same contributed_rules_same built built'
  have equal : schema.same schema' = true ↔ ∀ value ∈ schema.defaults, value.isNumeric = true := by
    rw [same, List.all_eq_true]
  refine ⟨equal, fun numeric => equal.mpr fun value member => ?_⟩
  obtain ⟨d, defined, written⟩ := built_defaults built member
  exact numeric d defined value written

/-- Two types that refer to each other, one of them with a default value, in one document and
in two. -/
theorem schema_of_two_orders :
    let limit : InputValueDefinition :=
      ⟨.start, none, "limit", .named ⟨.start, "Float"⟩, some ⟨.start, .double .infinity⟩, []⟩
    let id : FieldDefinition := ⟨.start, none, "id", [], .named ⟨.start, "ID"⟩, []⟩
    let ids : FieldDefinition := ⟨.start, none, "ids", [limit], .named ⟨.start, "ID"⟩, []⟩
    let query : Definition :=
      .object ⟨.start, none, "Query", [⟨.start, "Node"⟩], [], [id, ids]⟩
    let node : Definition := .interface ⟨.start, none, "Node", [], [], [id]⟩
    let once : List Document := [⟨[query, node]⟩]
    let twice : List Document := [⟨[node]⟩, ⟨[query]⟩]
    (once.flatMap Document.definitions).Perm (twice.flatMap Document.definitions) ∧
      ((∃ schema, schemaOf once = .ok schema) ↔ ∃ schema', schemaOf twice = .ok schema') ∧
      (∀ schema schema', schemaOf once = .ok schema → schemaOf twice = .ok schema' →
        schema.same schema' = true) ∧
      (schemaOf once).isOk = true := by
  intro limit id ids query node once twice
  have perm : (once.flatMap Document.definitions).Perm (twice.flatMap Document.definitions) :=
    List.Perm.swap node query []
  obtain ⟨makes, same⟩ := schema_ignores_order perm
  refine ⟨perm, makes, fun schema schema' made made' => ?_, by decide +kernel⟩
  have number : Double.infinity.isNumber = true := by decide
  refine (same schema schema' made made').2 ?_
  simp [once, query, node, ids, id, limit, Definition.defaults, writtenDefaults, Value.isNumeric,
    ValueForm.isNumeric, number]

/-- Two definitions make schemas that are not equal, because the default value of one of them
is not a number. -/
theorem schema_of_no_number_differs :
    let limit : InputValueDefinition :=
      ⟨.start, none, "limit", .named ⟨.start, "Float"⟩, some ⟨.start, .double .notANumber⟩, []⟩
    let ids : FieldDefinition := ⟨.start, none, "ids", [limit], .named ⟨.start, "ID"⟩, []⟩
    let query : Definition := .object ⟨.start, none, "Query", [], [], [ids]⟩
    let date : Definition := .scalar ⟨.start, none, "Date", []⟩
    let once : List Document := [⟨[query, date]⟩]
    let twice : List Document := [⟨[date]⟩, ⟨[query]⟩]
    (once.flatMap Document.definitions).Perm (twice.flatMap Document.definitions) ∧
      ∃ schema schema', schemaOf once = .ok schema ∧ schemaOf twice = .ok schema' ∧
        schema.same schema' = false := by
  intro limit ids query date once twice
  refine ⟨List.Perm.swap date query [], ?_⟩
  have compared : (do
      let schema ← schemaOf once
      let schema' ← schemaOf twice
      return schema.same schema').toOption = some false := by decide +kernel
  cases made : schemaOf once with
  | error failure =>
      rw [made] at compared
      cases compared
  | ok schema =>
      rw [made] at compared
      cases made' : schemaOf twice with
      | error failure =>
          rw [made'] at compared
          cases compared
      | ok schema' =>
          rw [made'] at compared
          exact ⟨schema, schema', rfl, rfl, Option.some.inj compared⟩

end Documents
end GraphQL
