import GraphQL.Proofs.SelectionGaps
import GraphQL.Proofs.SuggestedTypes

/-! What becomes of a field that its parent lacks when it is put into an inline fragment. The
selections of a document are numbered in the order of the document, and the rule about
fields has a verdict on each of them. The number of the field then is that of the fragment,
and the field comes next; its parent is the type of the fragment. -/
namespace GraphQL

open Rules

section Verdicts
variable {schema : Schema} {document : Document}

def Document.verdicts (schema : Schema) (document : Document) :
    List (Selection × Option Finding) :=
  (document.parented schema).map fun site =>
    (site.2, Judges.judgedAt? (undefinedField? schema) site)

/-- The verdicts are on all selections of the document, and validation reports the findings
among them. -/
structure Document.Judged (schema : Schema) (document : Document) : Prop where
  selections : (document.verdicts schema).map Prod.fst = document.nodes.filterMap Node.selection?
  findings : validate schema document [fieldsOnCorrectType] =
    .ok ((document.verdicts schema).filterMap Prod.snd)

theorem judged_of_intact (built : schema.Built) (intact : (Node.document document).Intact) :
    document.Judged schema := by
  constructor
  · rw [← parented_selections schema, Document.verdicts, List.map_map]
    rfl
  · have defined : fieldsOnCorrectType ∈ specifiedRules := by simp [specifiedRules]
    rw [fields_on_correct_type_judges.found built intact defined, Document.verdicts,
      Document.knownFields, List.filterMap_filterMap, List.filterMap_map]
    rfl

theorem judged_undefined {parent? : Option SchemaType} {field : Field} {finding : Finding}
    (judged : Judges.judgedAt? (undefinedField? schema) (parent?, .field field) = some finding) :
    ∃ parent, parent? = some parent ∧ finding = undefinedFieldFinding schema parent field := by
  cases parent? with
  | none => cases judged
  | some parent =>
      refine ⟨parent, rfl, ?_⟩
      have undefined : undefinedField? schema parent field = some finding := judged
      rw [undefinedField?] at undefined
      split at undefined
      · cases undefined
      · exact (Option.some.inj undefined).symm

theorem judged_defined {parent : SchemaType} {field : Field}
    (defined : ∃ definition ∈ parent.fields, definition.name = field.name) :
    Judges.judgedAt? (undefinedField? schema) (some parent, .field field) = none :=
  if_pos (.inr defined)

end Verdicts

section Gaps
variable {schema : Schema}

theorem parented_at_gap (schema : Schema) (gap : DocumentGap) (selection : Selection)
    (later : Nat) {site : Option SchemaType × Selection}
    (found : (selection.parented schema (gap.parent? schema))[later]? = some site) :
    ((gap.fill selection).parented schema)[gap.number + later]? = some site := by
  obtain ⟨before, after, count, listed⟩ := gap.parented_fill schema selection
  have short : later < (selection.parented schema (gap.parent? schema)).length :=
    (List.getElem?_eq_some_iff.mp found).1
  rw [listed, ← count, List.getElem?_append_right (Nat.le_add_right _ _),
    Nat.add_sub_cancel_left, List.getElem?_append_left short, found]

theorem gap_of_number {document : Document} {number : Nat}
    {site : Option SchemaType × Selection}
    (found : (document.parented schema)[number]? = some site) :
    ∃ gap : DocumentGap, gap.number = number ∧ gap.fill site.2 = document ∧
      gap.parent? schema = site.1 := by
  obtain ⟨inside, same⟩ := List.getElem?_eq_some_iff.mp found
  have split : document.parented schema = (document.parented schema).take number ++
      site :: (document.parented schema).drop (number + 1) := by
    rw [← same, ← List.drop_eq_getElem_cons inside, List.take_append_drop]
  obtain ⟨gap, filled, count⟩ := DocumentGap.of_parented split
  rw [List.length_take_of_le (Nat.le_of_lt inside)] at count
  refine ⟨gap, count, filled, ?_⟩
  have own := parented_at_gap schema gap site.2 0 rfl
  rw [Nat.add_zero, count, filled, found] at own
  exact (congrArg Prod.fst (Option.some.inj own)).symm

theorem verdict_iff {document : Document} {number : Nat} {selection : Selection}
    {finding? : Option Finding} :
    (document.verdicts schema)[number]? = some (selection, finding?) ↔
      ∃ parent?, (document.parented schema)[number]? = some (parent?, selection) ∧
        Judges.judgedAt? (undefinedField? schema) (parent?, selection) = finding? := by
  rw [Document.verdicts, List.getElem?_map, Option.map_eq_some_iff]
  simp only [Prod.exists, Prod.mk.injEq]
  constructor
  · rintro ⟨parent?, _, found, rfl, judged⟩
    exact ⟨parent?, found, judged⟩
  · rintro ⟨parent?, found, judged⟩
    exact ⟨parent?, selection, found, rfl, judged⟩

theorem parent_below_member {enclosing? : Option SchemaType} {selection : Selection}
    {parent : SchemaType} (member : ∀ type, enclosing? = some type → type ∈ schema.types)
    (below : selection.parentBelow schema enclosing? = some parent) : parent ∈ schema.types := by
  cases selection with
  | field f =>
      obtain ⟨type, _, found⟩ :=
        Option.bind_eq_some_iff.mp (Option.filter_eq_some_iff.mp below).1
      exact Named.mem_of_find? found
  | spread s => cases below
  | inline f =>
      rw [Selection.parentBelow] at below
      cases condition : f.typeCondition? with
      | none =>
          rw [condition] at below
          exact member parent below
      | some name =>
          rw [condition] at below
          exact Named.mem_of_find? (Option.filter_eq_some_iff.mp below).1

theorem SelectionGap.parent_member (gap : SelectionGap) {enclosing? : Option SchemaType}
    (member : ∀ type, enclosing? = some type → type ∈ schema.types) :
    ∀ parent, gap.parent? schema enclosing? = some parent → parent ∈ schema.types := by
  induction gap generalizing enclosing? with
  | here _ _ _ => exact member
  | field _ _ _ f _ ih | inline _ _ _ f _ ih =>
      exact ih fun type below => parent_below_member member below

theorem DocumentGap.parent_member (gap : DocumentGap) {parent : SchemaType}
    (known : gap.parent? schema = some parent) : parent ∈ schema.types := by
  rcases gap with ⟨_, _ | _, _⟩
  case operation d gap =>
    refine gap.parent_member (fun type root => ?_) parent known
    obtain ⟨object, found, rfl⟩ := Option.map_eq_some_iff.mp root
    obtain ⟨name, _, found⟩ := Option.bind_eq_some_iff.mp found
    exact Named.mem_of_find? (Schema.object_some_iff.mp found)
  case fragment d gap =>
    refine gap.parent_member (fun type root => ?_) parent known
    exact Named.mem_of_find? (Option.filter_eq_some_iff.mp root).1

end Gaps

section Fixes
variable {schema : Schema}

/-- With the fragment in the gap, validation has nothing to say about the fragment or about the
field, which is the next selection. -/
structure Fixed (schema : Schema) (gap : DocumentGap) (fragment : InlineFragment)
    (field : Field) : Prop where
  judged : (gap.fill (.inline fragment)).Judged schema
  outer : ((gap.fill (.inline fragment)).verdicts schema)[gap.number]? =
    some (.inline fragment, none)
  inner : ((gap.fill (.inline fragment)).verdicts schema)[gap.number + 1]? =
    some (.field field, none)

/-- The field can be replaced by a fragment that holds it. Its place is a gap of the document,
and a fragment in that place fixes it as soon as it is on one of the types. -/
structure FixedOn (schema : Schema) (document : Document) (number : Nat) (field : Field)
    (types : List String) : Prop where
  gap : ∃ gap : DocumentGap, gap.number = number ∧ gap.fill (.field field) = document
  fixed : ∀ gap : DocumentGap, gap.number = number → gap.fill (.field field) = document →
    ∀ (fragment : InlineFragment) (condition : NamedType),
      fragment.typeCondition? = some condition → condition.name ∈ types →
      fragment.selectionSet.selections = [.field field] → Fixed schema gap fragment field

theorem fixed_by_fragment (built : schema.Built) {gap : DocumentGap} {field : Field}
    (intact : (Node.document (gap.fill (.field field))).Intact) {fragment : InlineFragment}
    {condition : NamedType} (conditioned : fragment.typeCondition? = some condition)
    (single : fragment.selectionSet.selections = [.field field]) {type : SchemaType}
    (found : schema.type? condition.name = some type) (composite : type.isComposite = true)
    (defined : ∃ definition ∈ type.fields, definition.name = field.name) :
    Fixed schema gap fragment field := by
  let parent? := gap.parent? schema
  have below : (Selection.inline fragment).parentBelow schema parent? = some type := by
    rw [Selection.parentBelow, conditioned]
    exact Option.filter_eq_some_iff.mpr ⟨found, composite⟩
  have listed : (Selection.inline fragment).parented schema parent? = (parent?, .inline fragment) ::
      (Selection.field field).parented schema (some type) := by
    have nested : (Selection.inline fragment).nested? = some fragment.selectionSet := rfl
    rw [parented_nested nested, below, parented_of_set, single, List.flatMap_singleton]
  constructor
  · exact judged_of_intact built (gap.intact_fill intact _)
  · -- The fragment itself is no field, so there is no verdict on it, whatever its parent.
    have top : ((Selection.inline fragment).parented schema parent?)[0]? =
        some (parent?, .inline fragment) := rfl
    refine verdict_iff.mpr ⟨parent?, parented_at_gap schema gap (.inline fragment) 0 top, ?_⟩
    cases parent? <;> rfl
  · have next : ((Selection.inline fragment).parented schema parent?)[1]? =
        some (some type, .field field) := by
      rw [listed]
      rfl
    exact verdict_iff.mpr
      ⟨some type, parented_at_gap schema gap (.inline fragment) 1 next, judged_defined defined⟩

/-- The types that are suggested for a field are the possible types of the parent that have it
and those of their interfaces that have it, each of them once. A field that validation
finds to be undefined can be replaced by an inline fragment on any of the types that are
suggested for it, with the field in it, and then the field is not found to be undefined. -/
theorem suggested_types_fix_fields (built : schema.Built) :
    (∀ parent ∈ schema.types, parent.isAbstract = true → ∀ field,
      (suggestedTypes schema parent field).Nodup ∧
        ∀ name, name ∈ suggestedTypes schema parent field ↔
          Suggested schema parent field name) ∧
    ∀ document, (Node.document document).Sound → document.Judged schema ∧
      ∀ number field finding,
        (document.verdicts schema)[number]? = some (.field field, some finding) →
        ∃ parent ∈ schema.types,
          (document.parented schema)[number]? = some (some parent, .field field) ∧
          finding = undefinedFieldFinding schema parent field ∧
          FixedOn schema document number field (suggestedTypes schema parent field.name) := by
  constructor
  · intro parent member abstract field
    exact ⟨suggested_types_nodup schema parent field, fun _ => suggested_iff built member abstract⟩
  · intro document sound
    refine ⟨judged_of_intact built sound.intact, fun number field finding found => ?_⟩
    obtain ⟨parent?, listed, judged⟩ := verdict_iff.mp found
    obtain ⟨gap, count, filled, known⟩ := gap_of_number listed
    obtain ⟨parent, rfl, named⟩ := judged_undefined judged
    have member := gap.parent_member known
    refine ⟨parent, member, listed, named, ⟨gap, count, filled⟩, ?_⟩
    intro gap' _ filled' fragment condition conditioned suggested single
    have abstract := abstract_of_suggested suggested
    obtain ⟨type, typed, composite, defined⟩ :=
      ((suggested_iff built member abstract).mp suggested).type built member
    have intact : (Node.document (gap'.fill (.field field))).Intact := filled' ▸ sound.intact
    exact fixed_by_fragment built intact conditioned single typed composite defined

/-- A field of a union with two members, of which one has the field and lists an interface
that has it. The interface is suggested, and a fragment on it makes the field defined. -/
theorem fragment_on_interface_of_member :
    let origin : Origin := .written .start
    let name : OutputField := ⟨origin, none, "name", [], .named "String" true⟩
    let pet : SchemaType := .union ⟨origin, none, "Pet", ["Cat", "Dog"]⟩
    let types : List SchemaType :=
      [.object ⟨origin, none, "Query", [], [⟨origin, none, "pet", [], .named "Pet" true⟩]⟩,
        .interface ⟨origin, none, "Named", [], [name]⟩, pet,
        .object ⟨origin, none, "Cat", ["Named"], [name]⟩,
        .object ⟨origin, none, "Dog", [], [⟨origin, none, "id", [], .named "ID" true⟩]⟩]
    let schema : Schema := ⟨builtinTypes ++ types, builtinRules,
      [⟨"Named", ["Cat"]⟩, ⟨"Pet", ["Cat", "Dog"]⟩], "Query", none, none⟩
    let field (name : String) : Field := ⟨.start, none, name, [], [], none⟩
    let fragment : InlineFragment :=
      ⟨.start, some ⟨.start, "Named"⟩, [], ⟨.start, [.field (field "name")]⟩⟩
    let place : SelectionGap := .field .start [] [] (field "pet") (.here .start [] [])
    let operation : Operation := ⟨.start, .query, none, [], [], ⟨.start, []⟩⟩
    let gap : DocumentGap := ⟨[], .operation operation place, []⟩
    let document := gap.fill (.field (field "name"))
    schema.Built ∧ (Node.document document).Sound ∧
      (document.verdicts schema)[1]? =
        some (.field (field "name"), some (undefinedFieldFinding schema pet (field "name"))) ∧
      "Named" ∈ suggestedTypes schema pet "name" ∧ Fixed schema gap fragment (field "name") := by
  intro origin name pet types schema field fragment place operation gap document
  let nameField : FieldDefinition := ⟨.start, none, "name", [], .named ⟨.start, "String"⟩, []⟩
  let definitions : List Definition :=
    [.object ⟨.start, none, "Query", [], [],
        [⟨.start, none, "pet", [], .named ⟨.start, "Pet"⟩, []⟩]⟩,
      .interface ⟨.start, none, "Named", [], [], [nameField]⟩,
      .union ⟨.start, none, "Pet", [], [⟨.start, "Cat"⟩, ⟨.start, "Dog"⟩]⟩,
      .object ⟨.start, none, "Cat", [⟨.start, "Named"⟩], [], [nameField]⟩,
      .object ⟨.start, none, "Dog", [], [],
        [⟨.start, none, "id", [], .named ⟨.start, "ID"⟩, []⟩]⟩]
  have built : schema.Built := by
    refine ⟨[⟨definitions⟩], ⟨builtinTypes ++ types, [], none, []⟩, ?_, rfl⟩
    dsimp only [definitions, nameField]
    rfl
  have sound : (Node.document document).Sound := by
    simp [document, gap, place, field, operation, DocumentGap.fill, DefinitionGap.fill,
      SelectionGap.fill, Node.Sound, Node.listing, Node.tree_eq, Node.children,
      Node.ofDefinition, Node.ofSelection, Tree.listing, Tree.listingAll, Node.flaw?]
  have found : (document.verdicts schema)[1]? =
      some (.field (field "name"), some (undefinedFieldFinding schema pet (field "name"))) := rfl
  obtain ⟨suggestions, fixes⟩ := suggested_types_fix_fields built
  obtain ⟨parent, _, known, _, _, fixed⟩ := (fixes document sound).2 1 _ _ found
  cases (show some (some pet, Selection.field (field "name")) = _ from known)
  have member : pet ∈ schema.types := by simp [schema, types]
  have suggested : "Named" ∈ suggestedTypes schema pet "name" := by
    have cat : FieldsType.Defines ⟨origin, none, "Cat", ["Named"], [name]⟩ "name" :=
      ⟨name, List.mem_cons_self, rfl⟩
    refine ((suggestions pet member rfl "name").2 "Named").mpr ?_
    exact .interface List.mem_cons_self cat List.mem_cons_self rfl ⟨name, List.mem_cons_self, rfl⟩
  exact ⟨built, sound, found, suggested, fixed gap rfl rfl fragment _ rfl suggested rfl⟩

end Fixes
end GraphQL
