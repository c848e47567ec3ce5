import GraphQL.Proofs.DefinitionOrder
import Mathlib.Data.List.Forall2
import Mathlib.Data.List.Induction

/-! What is written in definitions stands in the schema again, item by item and in the
same order. Definitions that repeat a field or a member are refused. Parameters and the
values of enums are put into a table instead, so that of those with one name only the last
is kept. -/
namespace GraphQL

/-! A table is the list that it is filled from exactly when no name is repeated there. -/
section Tables

namespace Named
variable {α : Type} [Named α] {item : α} {items table : List α}

theorem put_fresh (fresh : nameOf item ∉ table.map nameOf) : put item table = table ++ [item] := by
  induction table with
  | nil => rfl
  | cons first rest ih =>
      simp only [List.map_cons, List.mem_cons, not_or] at fresh
      have other : ¬ (nameOf first == nameOf item) = true := by simpa using Ne.symm fresh.1
      rw [put, if_neg other, ih fresh.2, List.cons_append]

theorem mem_put {added : α} (distinct : Distinct table) (member : item ∈ put added table) :
    item = added ∨ item ∈ table ∧ nameOf item ≠ nameOf added := by
  induction table with
  | nil => exact .inl (List.mem_singleton.mp member)
  | cons first rest ih =>
      obtain ⟨fresh, distinct⟩ := List.nodup_cons.mp distinct
      rw [put] at member
      split at member
      · next same =>
        have same : nameOf first = nameOf added := beq_iff_eq.mp same
        rcases List.mem_cons.mp member with new | later
        · exact .inl new
        · refine .inr ⟨List.mem_cons_of_mem _ later, ?_⟩
          rw [← same]
          exact fun again => fresh (again ▸ List.mem_map_of_mem later)
      · next other =>
        rcases List.mem_cons.mp member with rfl | later
        · exact .inr ⟨List.mem_cons_self, fun same => other (beq_iff_eq.mpr same)⟩
        · rcases ih distinct later with new | ⟨old, apart⟩
          · exact .inl new
          · exact .inr ⟨List.mem_cons_of_mem _ old, apart⟩

theorem of_list_append (items : List α) (item : α) :
    ofList (items ++ [item]) = put item (ofList items) := by
  rw [ofList, List.foldl_append]
  rfl

theorem of_list_of_distinct (distinct : Distinct items) : ofList items = items := by
  induction items using List.reverseRecOn with
  | nil => rfl
  | append_singleton items item ih =>
      obtain ⟨before, fresh⟩ := distinct_append_single.mp distinct
      rw [of_list_append, ih before, put_fresh (find_none_iff.mp fresh)]

theorem mem_names_of_list (name : String) (items : List α) :
    name ∈ (ofList items).map nameOf ↔ name ∈ items.map nameOf := by
  induction items using List.reverseRecOn with
  | nil => rfl
  | append_singleton items item ih =>
      rw [of_list_append, mem_names_put, ih, List.map_append, List.mem_append, or_comm]
      simp

/-- Of the items with one name a table keeps the last. -/
theorem last_of_mem_of_list (member : item ∈ ofList items) :
    ∃ before after, items = before ++ item :: after ∧ nameOf item ∉ after.map nameOf := by
  induction items using List.reverseRecOn with
  | nil => cases member
  | append_singleton items added ih =>
      rw [of_list_append] at member
      rcases mem_put (distinct_of_list items) member with rfl | ⟨old, apart⟩
      · exact ⟨items, [], rfl, List.not_mem_nil⟩
      · obtain ⟨before, after, rfl, last⟩ := ih old
        refine ⟨before, after ++ [added], by simp, ?_⟩
        simp only [List.map_append, List.mem_append, not_or]
        exact ⟨last, fun new => apart (List.mem_singleton.mp new)⟩

end Named

/-- What is left of items that are put into a table by their names. Names are not lost and
nothing is made up; every item is kept exactly when no name is repeated. -/
structure Tabled {Item α : Type} [Named α] (Keeps : Item → α → Prop) (nameOf : Item → String)
    (written : List Item) (table : List α) : Prop where
  all_iff : List.Forall₂ Keeps written table ↔ (written.map nameOf).Nodup
  distinct : Named.Distinct table
  names : ∀ name, name ∈ table.map Named.nameOf ↔ name ∈ written.map nameOf
  last : ∀ kept ∈ table, ∃ before item after, written = before ++ item :: after ∧
    Keeps item kept ∧ nameOf item ∉ after.map nameOf

section Kept
variable {Item α : Type} {Keeps : Item → α → Prop}

theorem kept_map {make : Item → α} (keeps : ∀ item, Keeps item (make item))
    (written : List Item) : List.Forall₂ Keeps written (written.map make) :=
  List.forall₂_map_right_iff.mpr (List.forall₂_same.mpr fun item _ => keeps item)

variable [Named α] {nameOf : Item → String}

theorem names_of_kept (named : ∀ item kept, Keeps item kept → Named.nameOf kept = nameOf item)
    {written : List Item} {table : List α} (all : List.Forall₂ Keeps written table) :
    table.map Named.nameOf = written.map nameOf := by
  induction all with
  | nil => rfl
  | cons head _ ih => rw [List.map_cons, List.map_cons, named _ _ head, ih]

theorem tabled_of_list {make : Item → α} (keeps : ∀ item, Keeps item (make item))
    (named : ∀ item kept, Keeps item kept → Named.nameOf kept = nameOf item)
    (written : List Item) : Tabled Keeps nameOf written (Named.ofList (written.map make)) := by
  have names := names_of_kept named (kept_map keeps written)
  constructor
  · constructor
    · intro all
      rw [← names_of_kept named all]
      exact Named.distinct_of_list _
    · intro distinct
      rw [← names] at distinct
      rw [Named.of_list_of_distinct distinct]
      exact kept_map keeps written
  · exact Named.distinct_of_list _
  · intro name
    rw [Named.mem_names_of_list, names]
  · intro kept member
    obtain ⟨before, after, split, last⟩ := Named.last_of_mem_of_list member
    obtain ⟨before, rest, rfl, rfl, later⟩ := List.map_eq_append_iff.mp split
    obtain ⟨item, after, rfl, rfl, rfl⟩ := List.map_eq_cons_iff.mp later
    rw [names_of_kept named (kept_map keeps after), named _ _ (keeps item)] at last
    exact ⟨before, item, after, rfl, keeps item, last⟩

end Kept
end Tables

section Kept

structure InputKept (d : InputValueDefinition) (kept : InputValue) : Prop where
  origin : kept.origin = .written d.position
  name : kept.name = d.name
  type : kept.type = .ofRef d.type
  default : kept.default? = d.default?

def ParametersKept : List InputValueDefinition → List InputValue → Prop :=
  Tabled InputKept InputValueDefinition.name

structure FieldKept (d : FieldDefinition) (kept : OutputField) : Prop where
  origin : kept.origin = .written d.position
  description : kept.description? = d.description?
  name : kept.name = d.name
  type : kept.type = .ofRef d.type
  parameters : ParametersKept d.arguments kept.parameters

structure FieldsKept (d : FieldsDefinition) (kept : FieldsType) : Prop where
  origin : kept.origin = .written d.position
  description : kept.description? = d.description?
  name : kept.name = d.name
  interfaces : kept.interfaces = d.interfaces.map NamedType.name
  fields : List.Forall₂ FieldKept d.fields kept.fields

structure InputFieldsKept (d : InputObjectDefinition) (kept : InputObjectType) : Prop where
  origin : kept.origin = .written d.position
  description : kept.description? = d.description?
  name : kept.name = d.name
  fields : List.Forall₂ InputKept d.fields kept.fields

structure MembersKept (d : UnionDefinition) (kept : UnionType) : Prop where
  origin : kept.origin = .written d.position
  description : kept.description? = d.description?
  name : kept.name = d.name
  members : kept.members = d.members.map NamedType.name

structure ValueKept (d : EnumValueDefinition) (kept : EnumValue) : Prop where
  origin : kept.origin = .written d.position
  name : kept.name = d.name

structure ValuesKept (d : EnumDefinition) (kept : EnumType) : Prop where
  origin : kept.origin = .written d.position
  description : kept.description? = d.description?
  name : kept.name = d.name
  values : Tabled ValueKept EnumValueDefinition.name d.values kept.values

structure RuleKept (d : DirectiveDefinition) (kept : DirectiveRule) : Prop where
  origin : kept.origin = .written d.position
  description : kept.description? = d.description?
  name : kept.name = d.name
  repeatable : kept.repeatable = d.repeatable
  locations : kept.locations = d.locations
  parameters : ParametersKept d.arguments kept.parameters

/-- The type holds what the definition says. -/
inductive TypeKept : Definition → SchemaType → Prop where
  | scalar (d : ScalarDefinition) :
      TypeKept (.scalar d) (.scalar ⟨.written d.position, d.description?, d.name⟩)
  | object {d : FieldsDefinition} {kept : FieldsType} (all : FieldsKept d kept) :
      TypeKept (.object d) (.object kept)
  | interface {d : FieldsDefinition} {kept : FieldsType} (all : FieldsKept d kept) :
      TypeKept (.interface d) (.interface kept)
  | union {d : UnionDefinition} {kept : UnionType} (all : MembersKept d kept) :
      TypeKept (.union d) (.union kept)
  | enum {d : EnumDefinition} {kept : EnumType} (all : ValuesKept d kept) :
      TypeKept (.enum d) (.enum kept)
  | input {d : InputObjectDefinition} {kept : InputObjectType} (all : InputFieldsKept d kept) :
      TypeKept (.input d) (.input kept)

theorem input_kept (d : InputValueDefinition) : InputKept d (.ofDefinition d) :=
  ⟨rfl, rfl, rfl, rfl⟩

theorem parameters_kept (definitions : List InputValueDefinition) :
    ParametersKept definitions (parametersOf definitions) :=
  tabled_of_list input_kept (fun _ _ kept => kept.name) definitions

theorem field_kept (d : FieldDefinition) : FieldKept d (.ofDefinition d) :=
  ⟨rfl, rfl, rfl, rfl, parameters_kept d.arguments⟩

theorem values_kept (d : EnumDefinition) : ValuesKept d (.ofDefinition d) :=
  ⟨rfl, rfl, rfl, tabled_of_list (fun _ => ⟨rfl, rfl⟩) (fun _ _ kept => kept.name) d.values⟩

theorem rule_kept (d : DirectiveDefinition) : RuleKept d (.ofDefinition d) :=
  ⟨rfl, rfl, rfl, rfl, rfl, parameters_kept d.arguments⟩

end Kept

/-! Fields and members are collected one by one, and none of them is repeated. -/
section Collected

def FieldsType.ofDefinition (d : FieldsDefinition) : FieldsType :=
  ⟨.written d.position, d.description?, d.name, d.interfaces.map NamedType.name,
    d.fields.map OutputField.ofDefinition⟩

def InputObjectType.ofDefinition (d : InputObjectDefinition) : InputObjectType :=
  ⟨.written d.position, d.description?, d.name, d.fields.map InputValue.ofDefinition⟩

def UnionType.ofDefinition (d : UnionDefinition) : UnionType :=
  ⟨.written d.position, d.description?, d.name, d.members.map NamedType.name⟩

theorem fields_kept (d : FieldsDefinition) : FieldsKept d (.ofDefinition d) :=
  ⟨rfl, rfl, rfl, rfl, kept_map field_kept d.fields⟩

theorem input_fields_kept (d : InputObjectDefinition) : InputFieldsKept d (.ofDefinition d) :=
  ⟨rfl, rfl, rfl, kept_map input_kept d.fields⟩

theorem members_kept (d : UnionDefinition) : MembersKept d (.ofDefinition d) :=
  ⟨rfl, rfl, rfl, rfl⟩

namespace Draft

theorem distinct_fields (fields : List FieldDefinition) :
    Named.Distinct (fields.map OutputField.ofDefinition) ↔
      (fields.map FieldDefinition.name).Nodup := by
  rw [Named.Distinct, List.map_map]
  rfl

theorem distinct_inputs (fields : List InputValueDefinition) :
    Named.Distinct (fields.map InputValue.ofDefinition) ↔
      (fields.map InputValueDefinition.name).Nodup := by
  rw [Named.Distinct, List.map_map]
  rfl

/-- What is made of a collection stands for it, and is made under its condition. -/
theorem made_iff {Failure α β : Type} {collected : Except Failure α} {condition : Prop}
    {items : α} (each : ∀ found, collected = .ok found ↔ condition ∧ found = items)
    (make : α → β) {result : β} :
    (collected >>= fun found => pure (make found)) = .ok result ↔
      condition ∧ result = make items := by
  constructor
  · intro made
    obtain ⟨found, rfl, made⟩ := bind_ok made
    obtain ⟨holds, rfl⟩ := (each found).mp rfl
    cases made
    exact ⟨holds, rfl⟩
  · rintro ⟨holds, rfl⟩
    rw [(each items).mpr ⟨holds, rfl⟩]
    rfl

theorem fields_type_iff {d : FieldsDefinition} {type : FieldsType} :
    fieldsType d = .ok type ↔
      (d.fields.map FieldDefinition.name).Nodup ∧ type = .ofDefinition d := by
  rw [← distinct_fields]
  exact made_iff (fun _ => collect_fields_iff) _

theorem input_type_iff {d : InputObjectDefinition} {type : InputObjectType} :
    inputType d = .ok type ↔
      (d.fields.map InputValueDefinition.name).Nodup ∧ type = .ofDefinition d := by
  rw [← distinct_inputs]
  exact made_iff (fun _ => collect_fields_iff) _

theorem add_members_iff {union : String} {members : List NamedType} {names : List String} :
    members.foldlM (addMember union) [] = .ok names ↔
      (members.map NamedType.name).Nodup ∧ names = members.map NamedType.name := by
  have before (members : List NamedType) (member : NamedType)
      (distinct : ((members ++ [member]).map NamedType.name).Nodup) :
      (members.map NamedType.name).Nodup := by
    rw [List.map_append] at distinct
    exact (List.nodup_append.mp distinct).1
  have each (members : List NamedType) (member : NamedType) (next : List String)
      (distinct : (members.map NamedType.name).Nodup) :
      addMember union (members.map NamedType.name) member = .ok next ↔
        ((members ++ [member]).map NamedType.name).Nodup ∧
          next = (members ++ [member]).map NamedType.name := by
    rw [addMember, List.map_append, List.map_singleton, Named.nodup_append_single]
    by_cases listed : member.name ∈ members.map NamedType.name
    · simp [listed]
    · simp [listed, distinct, eq_comm]
  exact fold_collects (List.map NamedType.name) before each [] members names List.nodup_nil

theorem union_type_iff {d : UnionDefinition} {type : UnionType} :
    unionType d = .ok type ↔
      (d.members.map NamedType.name).Nodup ∧ type = .ofDefinition d :=
  made_iff (fun _ => add_members_iff) _

end Draft

namespace Definition

def definesType : Definition → Bool
  | scalar _ | object _ | interface _ | union _ | enum _ | input _ => true
  | operation _ | fragment _ | schema _ | directive _ => false

def directive? : Definition → Option DirectiveDefinition
  | directive d => some d
  | _ => none

/-- The names of the fields or the members that a definition lists. -/
def itemNames : Definition → List String
  | object d | interface d => d.fields.map FieldDefinition.name
  | input d => d.fields.map InputValueDefinition.name
  | union d => d.members.map NamedType.name
  | _ => []

/-- What a definition contributes holds all that is written there. -/
inductive Keeps : Definition → Contribution → Prop where
  | type {d : Definition} {kept : SchemaType} (defines : d.definesType = true)
      (all : TypeKept d kept) : Keeps d (.type kept d.position)
  | directive {d : DirectiveDefinition} {kept : DirectiveRule} (all : RuleKept d kept) :
      Keeps (.directive d) (.directive kept)
  | schema (d : SchemaDefinition) : Keeps (.schema d) (.schema d)

theorem contribution_keeps {d : Definition} {contribution : Contribution}
    (contributed : d.contribution = .ok contribution) :
    d.itemNames.Nodup ∧ d.Keeps contribution := by
  cases d with
  | operation d => cases contributed
  | fragment d => cases contributed
  | schema d =>
      cases contributed
      exact ⟨List.nodup_nil, .schema d⟩
  | directive d =>
      cases contributed
      exact ⟨List.nodup_nil, .directive (rule_kept d)⟩
  | scalar d =>
      cases contributed
      exact ⟨List.nodup_nil, .type rfl (.scalar d)⟩
  | enum d =>
      cases contributed
      exact ⟨List.nodup_nil, .type rfl (.enum (values_kept d))⟩
  | object d =>
      obtain ⟨type, made, contributed⟩ := bind_ok contributed
      obtain ⟨distinct, rfl⟩ := Draft.fields_type_iff.mp made
      cases contributed
      exact ⟨distinct, .type rfl (.object (fields_kept d))⟩
  | interface d =>
      obtain ⟨type, made, contributed⟩ := bind_ok contributed
      obtain ⟨distinct, rfl⟩ := Draft.fields_type_iff.mp made
      cases contributed
      exact ⟨distinct, .type rfl (.interface (fields_kept d))⟩
  | union d =>
      obtain ⟨type, made, contributed⟩ := bind_ok contributed
      obtain ⟨distinct, rfl⟩ := Draft.union_type_iff.mp made
      cases contributed
      exact ⟨distinct, .type rfl (.union (members_kept d))⟩
  | input d =>
      obtain ⟨type, made, contributed⟩ := bind_ok contributed
      obtain ⟨distinct, rfl⟩ := Draft.input_type_iff.mp made
      cases contributed
      exact ⟨distinct, .type rfl (.input (input_fields_kept d))⟩

end Definition
end Collected

section Contents

theorem contents_cons {d : Definition} {contribution : Contribution}
    (contributed : d.contribution = .ok contribution) (rest : List Definition) :
    Contents.ofDefinitions (d :: rest) =
      Contents.ofContributions (contribution :: Definition.contributions rest) := by
  rw [Contents.ofDefinitions, Definition.contributions, List.filterMap_cons, contributed]
  rfl

/-- Every definition of a type or a directive contributes one of them, in the same order. -/
theorem contents_keep {definitions : List Definition}
    (each : ∀ d ∈ definitions, ∃ contribution, d.contribution = .ok contribution) :
    List.Forall₂ TypeKept (definitions.filter Definition.definesType)
        (Contents.ofDefinitions definitions).types ∧
      List.Forall₂ RuleKept (definitions.filterMap Definition.directive?)
        (Contents.ofDefinitions definitions).rules := by
  induction definitions with
  | nil => exact ⟨.nil, .nil⟩
  | cons d rest ih =>
      obtain ⟨⟨contribution, contributed⟩, others⟩ := List.forall_mem_cons.mp each
      obtain ⟨types, rules⟩ := ih others
      rw [contents_cons contributed]
      cases (Definition.contribution_keeps contributed).2 with
      | type defines all =>
          have no_directive : d.directive? = none := by
            cases d <;> first | rfl | cases defines
          rw [List.filter_cons_of_pos defines, List.filterMap_cons_none no_directive]
          exact ⟨.cons all types, rules⟩
      | directive all => exact ⟨types, .cons all rules⟩
      | schema d => exact ⟨types, rules⟩

end Contents

section Documents

/-- A schema holds everything that the documents define: after the built-in types one type
for each definition of a type, and before the missing built-in directives one directive
for each that is defined. Documents that repeat a field or a member are not loaded. -/
theorem definitions_are_kept (documents : List Document) :
    (∀ schema, schemaOf documents = .ok schema → ∃ types rules,
      schema.types = builtinTypes ++ types ∧
      List.Forall₂ TypeKept
        ((documents.flatMap Document.definitions).filter Definition.definesType) types ∧
      schema.directives = Draft.withBuiltins rules ∧
      List.Forall₂ RuleKept
        ((documents.flatMap Document.definitions).filterMap Definition.directive?) rules) ∧
    ∀ d ∈ documents.flatMap Document.definitions, ¬ d.itemNames.Nodup →
      ∃ failure, documents.foldlM Draft.load Draft.empty = .error failure := by
  constructor
  · intro schema made
    obtain ⟨loadable, built⟩ := schema_of_iff.mp made
    obtain ⟨_, _, types, directives, _⟩ := Draft.build_iff.mp built
    obtain ⟨types_kept, rules_kept⟩ := contents_keep loadable.each
    exact ⟨_, _, types, types_kept, directives, rules_kept⟩
  · intro d member repeated
    cases loaded : documents.foldlM Draft.load Draft.empty with
    | error failure => exact ⟨failure, rfl⟩
    | ok draft =>
        obtain ⟨⟨each, _⟩, _⟩ := (load_iff documents draft).mp loaded
        obtain ⟨contribution, contributed⟩ := each d member
        exact absurd (Definition.contribution_keeps contributed).1 repeated

section Repetition

def queryWith (parameters : List InputValueDefinition) : FieldsDefinition :=
  ⟨.start, none, "Query", [], [], [⟨.start, none, "a", parameters, .named ⟨.start, "Int"⟩, []⟩]⟩

def enumOf (values : List EnumValueDefinition) : EnumDefinition := ⟨.start, none, "E", [], values⟩

/-- Definitions that make a schema, and one that is not loaded for its second field. -/
theorem query_and_enum_are_kept :
    let value : EnumValueDefinition := ⟨.start, none, "A", []⟩
    let definitions : List Definition := [.object (queryWith []), .enum (enumOf [value])]
    let field : FieldDefinition := ⟨.start, none, "a", [], .named ⟨.start, "Int"⟩, []⟩
    let repeated : Definition := .object ⟨.start, none, "Query", [], [], [field, field]⟩
    (∃ schema, schemaOf [⟨definitions⟩] = .ok schema ∧ ∃ types rules,
      schema.types = builtinTypes ++ types ∧ List.Forall₂ TypeKept definitions types ∧
      schema.directives = Draft.withBuiltins rules ∧ List.Forall₂ RuleKept [] rules) ∧
    ¬ repeated.itemNames.Nodup ∧
    ∃ failure, [Document.mk [repeated]].foldlM Draft.load Draft.empty = .error failure := by
  intro value definitions field repeated
  have makes : (schemaOf [⟨definitions⟩]).isOk = true := by decide +kernel
  have twice : ¬ repeated.itemNames.Nodup := by decide
  obtain ⟨schema, made⟩ := exists_of_is_ok makes
  refine ⟨⟨schema, made, ?_⟩, twice, ?_⟩
  · exact (definitions_are_kept [⟨definitions⟩]).1 schema made
  · exact (definitions_are_kept [⟨[repeated]⟩]).2 repeated List.mem_cons_self twice

/-- Parameters and values of enums are lost when they are given twice. -/
theorem repeated_items_are_lost :
    let parameter (type : String) : InputValueDefinition :=
      ⟨.start, none, "x", .named ⟨.start, type⟩, none, []⟩
    let value : EnumValueDefinition := ⟨.start, none, "A", []⟩
    let parameters := [parameter "Int", parameter "String"]
    ∃ schema,
      schemaOf [⟨[.object (queryWith parameters), .enum (enumOf [value, value])]⟩] = .ok schema ∧
      (∃ query field, .object query ∈ schema.types ∧ query.fields = [field] ∧
        ¬ List.Forall₂ InputKept parameters field.parameters) ∧
      ∃ enum, .enum enum ∈ schema.types ∧ ¬ List.Forall₂ ValueKept [value, value] enum.values := by
  intro parameter value parameters
  let documents : List Document :=
    [⟨[.object (queryWith parameters), .enum (enumOf [value, value])]⟩]
  have makes : (schemaOf documents).isOk = true := by decide +kernel
  obtain ⟨schema, made⟩ := exists_of_is_ok makes
  have types : schema.types = builtinTypes ++
      [.object (.ofDefinition (queryWith parameters)),
        .enum (.ofDefinition (enumOf [value, value]))] :=
    (Draft.build_ok (schema_of_iff.mp made).2).1
  have kept_parameters := parameters_kept parameters
  have kept_values := (values_kept (enumOf [value, value])).values
  refine ⟨schema, made, ⟨.ofDefinition (queryWith parameters), _, ?_, rfl, ?_⟩,
    .ofDefinition (enumOf [value, value]), ?_, ?_⟩
  · simp [types]
  · exact fun all => absurd (kept_parameters.all_iff.mp all) (by decide)
  · simp [types]
  · exact fun all => absurd (kept_values.all_iff.mp all) (by decide)

end Repetition
end Documents
end GraphQL
