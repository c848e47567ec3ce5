import GraphQL.Proofs.LoadedDrafts

/-! A schema is built from the types that are well formed, and from no others. What is
well formed is said here without the checks that look for flaws: by looking up names. -/
namespace GraphQL

section Types

namespace SchemaType

/-- Types of parameters and of fields of input objects. -/
def TakesInput : SchemaType → Prop
  | builtin _ | scalar _ | enum _ | input _ => True
  | object _ | interface _ | union _ => False

/-- Types of fields. -/
def GivesOutput : SchemaType → Prop
  | input _ => False
  | builtin _ | scalar _ | enum _ | object _ | interface _ | union _ => True

theorem is_input_iff (type : SchemaType) : type.isInput = true ↔ type.TakesInput := by
  cases type <;> simp [isInput, isComposite, TakesInput]

theorem is_output_iff (type : SchemaType) : type.isOutput = true ↔ type.GivesOutput := by
  cases type <;> simp [isOutput, GivesOutput]

def interfaces : SchemaType → List String
  | object t | interface t => t.interfaces
  | _ => []

def members : SchemaType → List String
  | union t => t.members
  | _ => []

def inputFields : SchemaType → List InputValue
  | input t => t.fields
  | _ => []

theorem object_some_iff {type : SchemaType} {object : FieldsType} :
    type.object? = some object ↔ type = .object object := by
  cases type <;> simp [object?]

end SchemaType

theorem Schema.object_some_iff {schema : Schema} {name : String} {object : FieldsType} :
    schema.object? name = some object ↔ schema.type? name = some (.object object) := by
  rw [object?, Option.bind_eq_some_iff]
  simp only [SchemaType.object_some_iff, exists_eq_right]

section Requirements
variable (types : List SchemaType)

/-- The type at the core is defined, and is one of those that are asked for. -/
def Refers (asked : SchemaType → Prop) (type : TypeExpr) : Prop :=
  ∃ core, Named.find? type.innermostName types = some core ∧ asked core

def IsObject (name : String) : Prop := ∃ object, Named.find? name types = some (.object object)

def IsInterface (name : String) (interface : FieldsType) : Prop :=
  Named.find? name types = some (.interface interface)

/-- A type has all fields of its interfaces. -/
def FieldsType.Implements (type : FieldsType) : Prop :=
  ∀ name ∈ type.interfaces, ∀ interface, IsInterface types name interface →
    ∀ field ∈ interface.fields, ∃ own ∈ type.fields, own.name = field.name

/-- All that a type says about other types is so. -/
structure SchemaType.Fits (type : SchemaType) : Prop where
  fields : ∀ field ∈ type.fields, Refers types GivesOutput field.type
  parameters : ∀ field ∈ type.fields, ∀ parameter ∈ field.parameters,
    Refers types TakesInput parameter.type
  inputFields : ∀ field ∈ type.inputFields, Refers types TakesInput field.type
  interfaces : ∀ name ∈ type.interfaces, ∃ interface, IsInterface types name interface
  members : ∀ name ∈ type.members, IsObject types name
  implements : ∀ object, type = .object object → object.Implements types

def DirectiveRule.Fits (rule : DirectiveRule) : Prop :=
  ∀ parameter ∈ rule.parameters, Refers types SchemaType.TakesInput parameter.type

structure WellFormed (rules : List DirectiveRule) : Prop where
  each : ∀ type ∈ types, type.Fits types
  directives : ∀ rule ∈ rules, rule.Fits types

/-- The schema definition names the root types, a type for queries among them. Without a
schema definition these are the types that have the names for it. -/
structure HasRoots (schemas : List SchemaDefinition) : Prop where
  named : ∀ d ∈ schemas, ∀ root ∈ d.rootTypes, IsObject types root.type.name
  query : schemas ≠ [] → ∃ d ∈ schemas, ∃ root ∈ d.rootTypes, root.operation = .query
  conventional : schemas = [] → ∀ name ∈ ["Query", "Mutation", "Subscription"],
    ∀ type, Named.find? name types = some type → ∃ object, type = .object object
  conventionalQuery : schemas = [] → ∃ type, Named.find? "Query" types = some type

end Requirements
end Types

/-! Each check finds nothing exactly when what it checks is so. -/
section Checks
variable {types : List SchemaType}

theorem type_flaws_nil_iff {type : TypeExpr} {origin : Origin}
    {check : SchemaType → List TypeFlaw} :
    typeFlaws types type origin check = [] ↔ Refers types (fun core => check core = []) type := by
  rw [typeFlaws, Refers]
  cases Named.find? type.innermostName types with
  | none => simp
  | some core => simp

theorem parameter_flaws_nil_iff {owner : String} {parameter : InputValue} :
    parameterFlaws types owner parameter = [] ↔
      Refers types SchemaType.TakesInput parameter.type := by
  rw [parameterFlaws, type_flaws_nil_iff]
  simp only [Refers, ← SchemaType.is_input_iff, ite_eq_left_iff, List.cons_ne_nil,
    imp_false, Bool.not_eq_true, Bool.not_eq_false]

theorem input_field_flaws_nil_iff {parent : String} {field : InputValue} :
    inputFieldFlaws types parent field = [] ↔
      Refers types SchemaType.TakesInput field.type := by
  rw [inputFieldFlaws, type_flaws_nil_iff]
  simp only [Refers, ← SchemaType.is_input_iff, ite_eq_left_iff, List.cons_ne_nil,
    imp_false, Bool.not_eq_true, Bool.not_eq_false]

theorem field_flaws_nil_iff {parent : String} {field : OutputField} :
    fieldFlaws types parent field = [] ↔
      (∀ parameter ∈ field.parameters, Refers types SchemaType.TakesInput parameter.type) ∧
        Refers types SchemaType.GivesOutput field.type := by
  rw [fieldFlaws, List.append_eq_nil_iff, List.flatMap_eq_nil_iff, type_flaws_nil_iff]
  simp only [parameter_flaws_nil_iff, Refers, ← SchemaType.is_output_iff, ite_eq_left_iff,
    List.cons_ne_nil, imp_false, Bool.not_eq_true, Bool.not_eq_false]

theorem missing_fields_nil_iff {type interface : FieldsType} :
    missingFields type interface = [] ↔
      ∀ field ∈ interface.fields, ∃ own ∈ type.fields, own.name = field.name := by
  rw [missingFields, List.map_eq_nil_iff, List.filter_eq_nil_iff]
  apply forall₂_congr
  intro field _
  rw [Bool.not_eq_true, Bool.not_eq_false', Named.has_iff]
  rfl

theorem interface_flaws_nil_iff {isObject : Bool} {type : FieldsType} {name : String} :
    interfaceFlaws types isObject type name = [] ↔
      ∃ interface, IsInterface types name interface ∧ (isObject = true →
        ∀ field ∈ interface.fields, ∃ own ∈ type.fields, own.name = field.name) := by
  rw [interfaceFlaws]
  simp only [IsInterface]
  rcases Named.find? name types with _ | found
  · simp
  · cases found with
    | interface found =>
        cases isObject <;> simp [missing_fields_nil_iff]
    | _ => simp

theorem member_flaws_nil_iff {type : UnionType} {member : String} :
    memberFlaws types type member = [] ↔ IsObject types member := by
  rw [memberFlaws, IsObject]
  rcases Named.find? member types with _ | found
  · simp
  · cases found <;> simp

theorem fields_type_flaws_nil_iff {isObject : Bool} {type : FieldsType} :
    fieldsTypeFlaws types isObject type = [] ↔
      (∀ field ∈ type.fields, Refers types SchemaType.GivesOutput field.type) ∧
      (∀ field ∈ type.fields, ∀ parameter ∈ field.parameters,
        Refers types SchemaType.TakesInput parameter.type) ∧
      (∀ name ∈ type.interfaces, ∃ interface, IsInterface types name interface) ∧
      (isObject = true → type.Implements types) := by
  rw [fieldsTypeFlaws, List.append_eq_nil_iff, List.flatMap_eq_nil_iff, List.flatMap_eq_nil_iff]
  simp only [field_flaws_nil_iff, interface_flaws_nil_iff]
  constructor
  · rintro ⟨fields, interfaces⟩
    refine ⟨fun field own => (fields field own).2, fun field own => (fields field own).1, ?_, ?_⟩
    · intro name listed
      obtain ⟨interface, found, _⟩ := interfaces name listed
      exact ⟨interface, found⟩
    · intro object name listed interface found
      obtain ⟨interface', found', has⟩ := interfaces name listed
      -- A name is not that of two interfaces.
      cases found.symm.trans found'
      exact has object
  · rintro ⟨outputs, parameters, interfaces, implements⟩
    constructor
    · exact fun field own => ⟨parameters field own, outputs field own⟩
    · intro name listed
      obtain ⟨interface, found⟩ := interfaces name listed
      exact ⟨interface, found, fun object => implements object name listed interface found⟩

theorem type_fits_iff (type : SchemaType) : type.flaws types = [] ↔ type.Fits types := by
  cases type with
  | builtin s => exact ⟨fun _ => ⟨nofun, nofun, nofun, nofun, nofun, nofun⟩, fun _ => rfl⟩
  | scalar t => exact ⟨fun _ => ⟨nofun, nofun, nofun, nofun, nofun, nofun⟩, fun _ => rfl⟩
  | enum t => exact ⟨fun _ => ⟨nofun, nofun, nofun, nofun, nofun, nofun⟩, fun _ => rfl⟩
  | input t =>
      rw [SchemaType.flaws, List.flatMap_eq_nil_iff]
      simp only [input_field_flaws_nil_iff]
      exact ⟨fun fields => ⟨nofun, nofun, fields, nofun, nofun, nofun⟩, fun fits => fits.inputFields⟩
  | union t =>
      rw [SchemaType.flaws, List.flatMap_eq_nil_iff]
      simp only [member_flaws_nil_iff]
      exact ⟨fun members => ⟨nofun, nofun, nofun, nofun, members, nofun⟩, fun fits => fits.members⟩
  | interface t =>
      rw [SchemaType.flaws, fields_type_flaws_nil_iff]
      constructor
      · rintro ⟨outputs, parameters, interfaces, _⟩
        exact ⟨outputs, parameters, nofun, interfaces, nofun, nofun⟩
      · exact fun fits => ⟨fits.fields, fits.parameters, fits.interfaces, nofun⟩
  | object t =>
      rw [SchemaType.flaws, fields_type_flaws_nil_iff]
      constructor
      · rintro ⟨outputs, parameters, interfaces, implements⟩
        refine ⟨outputs, parameters, nofun, interfaces, nofun, ?_⟩
        rintro _ ⟨⟩
        exact implements rfl
      · intro fits
        exact ⟨fits.fields, fits.parameters, fits.interfaces, fun _ => fits.implements t rfl⟩

theorem rule_fits_iff (rule : DirectiveRule) : rule.flaws types = [] ↔ rule.Fits types := by
  rw [DirectiveRule.flaws, List.flatMap_eq_nil_iff]
  simp only [parameter_flaws_nil_iff, DirectiveRule.Fits]

theorem schema_flaws_nil_iff {rules : List DirectiveRule} :
    schemaFlaws types rules = [] ↔ WellFormed types rules := by
  rw [schemaFlaws, List.append_eq_nil_iff, List.flatMap_eq_nil_iff, List.flatMap_eq_nil_iff]
  simp only [type_fits_iff, rule_fits_iff]
  exact ⟨fun fit => ⟨fit.1, fit.2⟩, fun well => ⟨well.each, well.directives⟩⟩

/-- What is built in fits among any types. -/
theorem builtin_rules_fit (builtins : builtinTypes <+: types) :
    ∀ rule ∈ builtinRules, rule.Fits types := by
  obtain ⟨more, rfl⟩ := builtins
  have boolean : Refers (builtinTypes ++ more) SchemaType.TakesInput (.named "Boolean" false) :=
    ⟨.builtin .boolean, rfl, trivial⟩
  have string (nullable : Bool) :
      Refers (builtinTypes ++ more) SchemaType.TakesInput (.named "String" nullable) :=
    ⟨.builtin .string, rfl, trivial⟩
  simp only [builtinRules, builtinRule, List.forall_mem_cons, DirectiveRule.Fits,
    List.not_mem_nil, false_implies, implies_true, boolean, string, and_self]

theorem well_formed_with_builtins_iff (builtins : builtinTypes <+: types)
    {rules : List DirectiveRule} :
    WellFormed types (Draft.withBuiltins rules) ↔ WellFormed types rules := by
  constructor
  · rintro ⟨each, directives⟩
    exact ⟨each, (List.forall_mem_append.mp directives).1⟩
  · rintro ⟨each, directives⟩
    refine ⟨each, List.forall_mem_append.mpr ⟨directives, ?_⟩⟩
    exact fun rule member => builtin_rules_fit builtins rule (List.mem_filter.mp member).1

end Checks

section Roots
variable {types : List SchemaType} {contents : Contents}

theorem lookup_some_iff {roots : List (OperationKind × String)}
    (distinct : (roots.map Prod.fst).Nodup) (kind : OperationKind) (name : String) :
    roots.lookup kind = some name ↔ (kind, name) ∈ roots := by
  induction roots with
  | nil => simp
  | cons root rest ih =>
      obtain ⟨fresh, distinct⟩ := List.nodup_cons.mp distinct
      rw [List.lookup_cons, List.mem_cons]
      by_cases same : kind = root.1
      · subst same
        have later : (root.1, name) ∉ rest := fun member => fresh (List.mem_map.mpr ⟨_, member, rfl⟩)
        simp [later, Prod.ext_iff, eq_comm]
      · rw [beq_false_of_ne same]
        simp [ih distinct, Prod.ext_iff, same]

namespace Draft

/-- The operations have the root types that they are given. -/
structure Rooted (draft : Draft) : Prop where
  query : ∃ name, draft.rootName? .query = some name
  objects : ∀ kind name, draft.rootName? kind = some name → IsObject draft.types name

theorem root_ok_iff {draft : Draft} {kind : OperationKind} {root? : Option String} :
    draft.root? kind = .ok root? ↔
      root? = draft.rootName? kind ∧
        ∀ name, draft.rootName? kind = some name → IsObject draft.types name := by
  rw [Draft.root?]
  cases draft.rootName? kind with
  | none => simp [eq_comm]
  | some name =>
      simp only [Option.some.injEq, forall_eq', IsObject]
      rcases Named.find? name draft.types with _ | found
      · simp
      · cases found <;> simp [eq_comm]

theorem build_iff {draft : Draft} {schema : Schema} :
    draft.build = .ok schema ↔
      WellFormed draft.types (withBuiltins draft.directives) ∧ draft.Rooted ∧
        schema.types = draft.types ∧ schema.directives = withBuiltins draft.directives ∧
        schema.possible = draft.types.foldl addPossibleOf [] ∧
        ∀ kind, schema.rootName? kind = draft.rootName? kind := by
  rw [← schema_flaws_nil_iff]
  constructor
  · intro built
    simp only [build] at built
    split at built
    · next flawless =>
      -- Three look-ups in turn; only the one for queries must find a name.
      obtain ⟨query?, asked, built⟩ := bind_ok built
      obtain ⟨named, query⟩ := root_ok_iff.mp asked
      cases query? with
      | none => cases built
      | some name =>
          obtain ⟨mutation?, asked, built⟩ := bind_ok built
          obtain ⟨rfl, mutation⟩ := root_ok_iff.mp asked
          obtain ⟨subscription?, asked, built⟩ := bind_ok built
          obtain ⟨rfl, subscription⟩ := root_ok_iff.mp asked
          cases built
          refine ⟨flawless, ⟨⟨name, named.symm⟩, ?_⟩, rfl, rfl, rfl, ?_⟩
          · rintro ⟨⟩
            · exact query
            · exact mutation
            · exact subscription
          · rintro ⟨⟩
            · exact named
            · rfl
            · rfl
    · cases built
  · rintro ⟨flawless, ⟨⟨name, query⟩, objects⟩, types, directives, possible, roots⟩
    have found (kind : OperationKind) : draft.root? kind = .ok (schema.rootName? kind) :=
      root_ok_iff.mpr ⟨roots kind, objects kind⟩
    rcases schema with ⟨_, _, _, root, mutation?, subscription?⟩
    dsimp only at types directives possible
    subst types directives possible
    simp only [build, flawless, found]
    rfl

theorem builds_iff {draft : Draft} :
    (∃ schema, draft.build = .ok schema) ↔
      WellFormed draft.types (withBuiltins draft.directives) ∧ draft.Rooted := by
  constructor
  · rintro ⟨schema, built⟩
    obtain ⟨well, rooted, _⟩ := build_iff.mp built
    exact ⟨well, rooted⟩
  · rintro ⟨well, rooted⟩
    obtain ⟨query, named⟩ := rooted.query
    let schema : Schema := ⟨draft.types, withBuiltins draft.directives,
      draft.types.foldl addPossibleOf [], query, draft.rootName? .mutation,
      draft.rootName? .subscription⟩
    refine ⟨schema, build_iff.mpr ⟨well, rooted, rfl, rfl, rfl, ?_⟩⟩
    rintro ⟨⟩
    · exact named.symm
    · rfl
    · rfl

theorem root_name_of_schema {draft : Draft} {place : Position}
    (named : draft.schemaPlace? = some place) (kind : OperationKind) :
    draft.rootName? kind = draft.roots.lookup kind := by
  rw [rootName?, named]
  cases draft.roots.lookup kind <;> rfl

theorem root_name_by_title {draft : Draft} (unnamed : draft.schemaPlace? = none)
    (no_roots : draft.roots = []) (kind : OperationKind) (name : String) :
    draft.rootName? kind = some name ↔
      kind.title = name ∧ ∃ type, Named.find? name draft.types = some type := by
  have titled : draft.rootName? kind =
      if Named.has kind.title draft.types then some kind.title else none := by
    rw [rootName?, unnamed, no_roots]
    rfl
  rw [titled, Option.ite_none_right_eq_some, Named.has, Option.isSome_iff_exists]
  constructor
  · rintro ⟨found, ⟨⟩⟩
    exact ⟨rfl, found⟩
  · rintro ⟨rfl, found⟩
    exact ⟨found, rfl⟩

end Draft

/-- The names for root types are those of the operations. -/
theorem title_iff (name : String) :
    name ∈ ["Query", "Mutation", "Subscription"] ↔ ∃ kind : OperationKind, kind.title = name := by
  constructor
  · intro member
    simp only [List.mem_cons, List.not_mem_nil, or_false] at member
    rcases member with rfl | rfl | rfl
    · exact ⟨.query, rfl⟩
    · exact ⟨.mutation, rfl⟩
    · exact ⟨.subscription, rfl⟩
  · rintro ⟨⟨⟩, rfl⟩ <;> decide

theorem rooted_by_title (no_schema : contents.schemas = []) :
    contents.draft.Rooted ↔ HasRoots contents.draft.types contents.schemas := by
  have unnamed : contents.draft.schemaPlace? = none := by rw [Contents.draft, no_schema]; rfl
  have no_roots : contents.draft.roots = [] := by
    rw [Contents.draft, Contents.roots, no_schema]; rfl
  have titled := Draft.root_name_by_title unnamed no_roots
  constructor
  · rintro ⟨⟨query, found⟩, objects⟩
    rw [no_schema]
    refine ⟨by simp, fun some => absurd rfl some, ?_, ?_⟩
    · intro _ name titles type found
      obtain ⟨kind, title⟩ := (title_iff name).mp titles
      obtain ⟨object, found'⟩ := objects kind name ((titled kind name).mpr ⟨title, type, found⟩)
      exact ⟨object, Option.some.inj (found.symm.trans found')⟩
    · obtain ⟨rfl, found⟩ := (titled .query query).mp found
      exact fun _ => found
  · intro roots
    constructor
    · exact ⟨"Query", (titled .query _).mpr ⟨rfl, roots.conventionalQuery no_schema⟩⟩
    · intro kind name found
      obtain ⟨title, type, found⟩ := (titled kind name).mp found
      obtain ⟨object, rfl⟩ :=
        roots.conventional no_schema name ((title_iff name).mpr ⟨kind, title⟩) type found
      exact ⟨object, found⟩

theorem rooted_by_schema (distinct : (contents.roots.map Prod.fst).Nodup)
    (some_schema : contents.schemas ≠ []) :
    contents.draft.Rooted ↔ HasRoots contents.draft.types contents.schemas := by
  -- No kind of operation is named twice, so a look-up finds every root that is written.
  have named (kind : OperationKind) (name : String) :
      contents.draft.rootName? kind = some name ↔ ∃ d ∈ contents.schemas,
        ∃ root ∈ d.rootTypes, root.operation = kind ∧ root.type.name = name := by
    obtain ⟨d, rest, schemas⟩ := List.exists_cons_of_ne_nil some_schema
    have place : contents.draft.schemaPlace? = some d.position := by
      rw [Contents.draft, schemas]
      rfl
    rw [Draft.root_name_of_schema place, Contents.draft, lookup_some_iff distinct,
      Contents.roots, List.mem_flatMap]
    simp only [SchemaDefinition.roots, List.mem_map, RootTypeDefinition.named, Prod.mk.injEq]
  constructor
  · rintro ⟨⟨query, found⟩, objects⟩
    obtain ⟨d, member, root, own, operation, _⟩ := (named .query query).mp found
    constructor
    · intro d member root own
      exact objects _ _ ((named _ _).mpr ⟨d, member, root, own, rfl, rfl⟩)
    · exact fun _ => ⟨d, member, root, own, operation⟩
    · exact fun no_schema => absurd no_schema some_schema
    · exact fun no_schema => absurd no_schema some_schema
  · intro roots
    constructor
    · obtain ⟨d, member, root, own, operation⟩ := roots.query some_schema
      exact ⟨_, (named _ _).mpr ⟨d, member, root, own, operation, rfl⟩⟩
    · intro kind name found
      obtain ⟨d, member, root, own, _, rfl⟩ := (named kind name).mp found
      exact roots.named d member root own

theorem rooted_iff (acceptable : contents.Acceptable) :
    contents.draft.Rooted ↔ HasRoots contents.draft.types contents.schemas := by
  by_cases no_schema : contents.schemas = []
  · exact rooted_by_title no_schema
  · exact rooted_by_schema acceptable.roots no_schema

end Roots

section Building
variable {documents : List Document} {draft : Draft} {schema : Schema}

def Definition.schema? : Definition → Option SchemaDefinition
  | .schema d => some d
  | _ => none

def Document.schemas (document : Document) : List SchemaDefinition :=
  document.definitions.filterMap Definition.schema?

theorem schemas_of_definitions (definitions : List Definition) :
    (Contents.ofDefinitions definitions).schemas = definitions.filterMap Definition.schema? := by
  have single (d : Definition) :
      d.contribution.toOption.bind Contribution.schema? = d.schema? := by
    cases d with
    | object d | interface d =>
        rw [Definition.contribution]
        cases Draft.fieldsType d <;> rfl
    | union d =>
        rw [Definition.contribution]
        cases Draft.unionType d <;> rfl
    | input d =>
        rw [Definition.contribution]
        cases Draft.inputType d <;> rfl
    | _ => rfl
  have all : (Contents.ofDefinitions definitions).schemas =
      definitions.filterMap fun d => d.contribution.toOption.bind Contribution.schema? :=
    List.filterMap_filterMap
  rw [all]
  exact congrArg (definitions.filterMap ·) (funext single)

theorem Draft.root_of_built (built : draft.build = .ok schema) {kind : OperationKind}
    {name : String} (named : schema.rootName? kind = some name) :
    ∃ object, schema.root? kind = some object := by
  obtain ⟨_, ⟨_, objects⟩, types, _, _, roots⟩ := build_iff.mp built
  obtain ⟨object, found⟩ := objects kind name (roots kind ▸ named)
  refine ⟨object, ?_⟩
  rw [Schema.root?, named, Option.bind_some, Schema.object?, Schema.type?, types, found]
  rfl

/-- What was loaded makes a schema exactly when it is well formed and has its root types.
The schema then always finds its type for queries. -/
theorem builds_iff_well_formed (loaded : documents.foldlM Draft.load Draft.empty = .ok draft) :
    ((∃ schema, draft.build = .ok schema) ↔
      WellFormed draft.types draft.directives ∧
        HasRoots draft.types (documents.flatMap Document.schemas)) ∧
    ∀ schema, draft.build = .ok schema → ∃ object, schema.root? .query = some object := by
  obtain ⟨⟨_, acceptable⟩, rfl⟩ := (load_iff documents draft).mp loaded
  constructor
  · have schemas : documents.flatMap Document.schemas =
        (Contents.ofDefinitions (documents.flatMap Document.definitions)).schemas := by
      rw [schemas_of_definitions, List.filterMap_flatMap]
      rfl
    rw [Draft.builds_iff, schemas, rooted_iff acceptable]
    exact and_congr_left' (well_formed_with_builtins_iff (List.prefix_append builtinTypes _))
  · exact fun schema built => Draft.root_of_built built rfl

/-- A type and the interface that it names, loaded one after the other. -/
theorem builds_interface_defined_later :
    let id : FieldDefinition := ⟨.start, none, "id", [], .named ⟨.start, "ID"⟩, []⟩
    let query : FieldsDefinition := ⟨.start, none, "Query", [⟨.start, "Node"⟩], [], [id]⟩
    let node : FieldsDefinition := ⟨.start, none, "Node", [], [], [id]⟩
    let documents : List Document := [⟨[.object query]⟩, ⟨[.interface node]⟩]
    ∃ draft, documents.foldlM Draft.load Draft.empty = .ok draft ∧
      ((∃ schema, draft.build = .ok schema) ↔
        WellFormed draft.types draft.directives ∧
          HasRoots draft.types (documents.flatMap Document.schemas)) ∧
      (∀ schema, draft.build = .ok schema → ∃ object, schema.root? .query = some object) ∧
      ∃ schema, draft.build = .ok schema := by
  intro id query node documents
  have makes : (documents.foldlM Draft.load Draft.empty >>= Draft.build).isOk = true := by
    decide +kernel
  cases made : documents.foldlM Draft.load Draft.empty >>= Draft.build with
  | error failure =>
      rw [made] at makes
      cases makes
  | ok schema =>
      obtain ⟨draft, loaded, built⟩ := bind_ok made
      obtain ⟨builds, starts⟩ := builds_iff_well_formed loaded
      exact ⟨draft, loaded, builds, starts, schema, built⟩

end Building
end GraphQL
