import GraphQL.Proofs.InterfaceConformance
import GraphQL.Proofs.ReservedNames

/-! Which object types stand for a type. The names of the possible types are collected from
what all types say, and they are read by two queries: one lists the object types, and one
tests a single object type. In a schema that was built only objects speak of an interface,
only a union speaks of itself, and nothing is said of any other type. -/
namespace GraphQL

namespace Schema
variable {schema : Schema}

theorem Built.distinct (built : schema.Built) : Named.Distinct schema.types := by
  obtain ⟨documents, made⟩ := built.made
  obtain ⟨loadable, builds⟩ := schema_of_iff.mp made
  rw [(Draft.build_ok builds).1]
  exact loadable.acceptable.types

theorem Built.found (built : schema.Built) {type : SchemaType} (member : type ∈ schema.types) :
    schema.type? type.name = some type :=
  Named.find_some_of_mem built.distinct member

theorem Built.object_found (built : schema.Built) {object : FieldsType}
    (member : .object object ∈ schema.types) : schema.object? object.name = some object :=
  object_some_iff.mpr (built.found member)

theorem Built.distinct_members (built : schema.Built) {union : UnionType}
    (member : .union union ∈ schema.types) : union.members.Nodup := by
  obtain ⟨documents, made⟩ := built.made
  rcases origin_of_type made member with builtin | ⟨_, d, distinct, kept⟩
  · simp [builtinTypes] at builtin
  · cases kept with
    | union all =>
        rw [all.members]
        exact distinct

/-- The object types of the schema, in their order. -/
def objects (schema : Schema) : List FieldsType := schema.types.filterMap SchemaType.object?

theorem mem_objects {object : FieldsType} :
    object ∈ schema.objects ↔ .object object ∈ schema.types := by
  rw [objects, List.mem_filterMap]
  simp only [SchemaType.object_some_iff, exists_eq_right]

theorem object_names_sublist (types : List SchemaType) :
    ((types.filterMap SchemaType.object?).map FieldsType.name).Sublist
      (types.map SchemaType.name) := by
  induction types with
  | nil => exact .slnil
  | cons type rest ih =>
      cases type with
      | object object => exact ih.cons_cons object.name
      | _ => exact ih.cons _

theorem Built.distinct_objects (built : schema.Built) :
    (schema.objects.map FieldsType.name).Nodup :=
  (object_names_sublist schema.types).nodup built.distinct

end Schema

section Collecting
variable {names more : List String}

namespace Draft

theorem add_known_names (known : ∀ name ∈ more, name ∈ names) :
    more.foldl addName names = names := by
  induction more with
  | nil => rfl
  | cons first rest ih =>
      obtain ⟨here, later⟩ := List.forall_mem_cons.mp known
      rw [List.foldl_cons, addName, if_pos (List.contains_iff_mem.mpr here)]
      exact ih later

/-- A name that is said again and again is added once. -/
theorem add_repeated_name {name : String} (fresh : name ∉ names)
    (same : ∀ other ∈ more, other = name) :
    more.foldl addName names = if more.isEmpty then names else names ++ [name] := by
  cases more with
  | nil => rfl
  | cons first rest =>
      obtain ⟨rfl, same⟩ := List.forall_mem_cons.mp same
      rw [List.foldl_cons, addName, if_neg (by simpa using fresh)]
      apply add_known_names
      intro other later
      rw [same other later]
      exact List.mem_concat_self

/-- Of speakers that say no name but their own, those are collected that speak. -/
theorem add_own_names {Item : Type} {items : List Item} {own : Item → String}
    {said : Item → List String} (distinct : (items.map own).Nodup)
    (same : ∀ item ∈ items, ∀ name ∈ said item, name = own item) :
    (items.flatMap said).foldl addName [] =
      (items.filter fun item => !(said item).isEmpty).map own := by
  -- For the induction, the names that are there already: none of the speakers that follow.
  have added (names : List String) (fresh : ∀ item ∈ items, own item ∉ names) :
      (items.flatMap said).foldl addName names =
        names ++ (items.filter fun item => !(said item).isEmpty).map own := by
    induction items generalizing names with
    | nil => exact (List.append_nil names).symm
    | cons first rest ih =>
        obtain ⟨other, distinct⟩ := List.nodup_cons.mp distinct
        obtain ⟨first_same, same⟩ := List.forall_mem_cons.mp same
        obtain ⟨first_fresh, fresh⟩ := List.forall_mem_cons.mp fresh
        rw [List.flatMap_cons, List.foldl_append, add_repeated_name first_fresh first_same]
        by_cases silent : (said first).isEmpty = true
        · rw [if_pos silent, List.filter_cons_of_neg (by simpa using silent)]
          exact ih distinct same names fresh
        · rw [if_neg silent, List.filter_cons_of_pos (by simpa using silent), List.map_cons]
          refine (ih distinct same _ ?_).trans (List.append_cons names _ _).symm
          intro item member
          rw [List.mem_append, List.mem_singleton]
          rintro (known | taken)
          · exact fresh item member known
          · exact other (taken ▸ List.mem_map_of_mem member)
  exact added [] fun _ _ => List.not_mem_nil

theorem add_distinct_names (distinct : names.Nodup) : names.foldl addName [] = names := by
  have each : ∀ name ∈ names, ∀ said ∈ [name], said = id name :=
    fun _ _ _ single => List.mem_singleton.mp single
  have own := add_own_names (by rwa [List.map_id]) each
  simpa using own

end Draft
end Collecting

/-! What the types of a schema say of one of them. -/
section Speakers
variable {schema : Schema} {type : SchemaType}

open Draft

theorem said_of_possibilities (name : String) (types : List SchemaType) :
    saidOf name (possibilities types) =
      types.flatMap fun speaker => saidOf name speaker.possibilities := by
  induction types with
  | nil => rfl
  | cons first rest ih =>
      rw [List.flatMap_cons, ← ih]
      simp [saidOf, possibilities]

theorem said_by_object (name : String) (object : FieldsType) :
    saidOf name (SchemaType.object object).possibilities =
      (object.interfaces.filter (· == name)).map fun _ => object.name := by
  rw [SchemaType.possibilities, saidOf, List.filter_map, List.flatMap_map]
  exact List.map_eq_flatMap.symm

theorem silent_interface (name : String) (interface : FieldsType) :
    saidOf name (SchemaType.interface interface).possibilities = [] := by
  by_cases same : interface.name = name
  · simp [saidOf, SchemaType.possibilities, same]
  · simp [saidOf, SchemaType.possibilities, same]

theorem silent_union {name : String} {union : UnionType} (other : union.name ≠ name) :
    saidOf name (SchemaType.union union).possibilities = [] :=
  said_of_cons_other _ other

/-- An object type lists the names of interfaces only. -/
theorem silent_object (built : schema.Built) (member : type ∈ schema.types)
    (no_interface : type.interface? = none) {object : FieldsType}
    (speaks : .object object ∈ schema.types) :
    saidOf type.name (SchemaType.object object).possibilities = [] := by
  rw [said_by_object, List.map_eq_nil_iff, List.filter_eq_nil_iff]
  intro name listed same
  obtain ⟨interface, found⟩ := (built.fits speaks).interfaces name listed
  rw [beq_iff_eq.mp same] at found
  cases found.symm.trans (built.found member)
  cases no_interface

theorem silent_others {speaker : SchemaType} (name : String) (no_object : speaker.object? = none)
    (no_union : ∀ union, speaker = .union union → union.name ≠ name) :
    saidOf name speaker.possibilities = [] := by
  cases speaker with
  | object _ => cases no_object
  | interface interface => exact silent_interface name interface
  | union union => exact silent_union (no_union union rfl)
  | builtin _ | scalar _ | enum _ | input _ => rfl

theorem said_by_objects {name : String} {types : List SchemaType}
    (silent : ∀ speaker ∈ types, speaker.object? = none → saidOf name speaker.possibilities = []) :
    saidOf name (possibilities types) = (types.filterMap SchemaType.object?).flatMap fun object =>
      saidOf name (SchemaType.object object).possibilities := by
  rw [said_of_possibilities]
  induction types with
  | nil => rfl
  | cons speaker rest ih =>
      obtain ⟨first, later⟩ := List.forall_mem_cons.mp silent
      rw [List.flatMap_cons, ih later]
      cases speaker with
      | object object => rfl
      | _ => rw [first rfl]; rfl

theorem Schema.Built.possible_names (built : schema.Built) (name : String) :
    schema.possibleNames name = (saidOf name (possibilities schema.types)).foldl addName [] := by
  obtain ⟨documents, draft, _, made⟩ := built
  obtain ⟨_, _, types, _, possible, _⟩ := Draft.build_iff.mp made
  rw [Schema.possibleNames, possible, types, ← possibleOf, find_possible]
  split
  · rfl
  · next unknown => rw [said_of_unknown unknown]; rfl

/-- Where nothing but objects speaks of a name, those are collected that list it. -/
theorem names_said_by_objects (built : schema.Built) {name : String}
    (silent : ∀ speaker ∈ schema.types, speaker.object? = none →
      saidOf name speaker.possibilities = []) :
    schema.possibleNames name = (schema.objects.filter fun object =>
      object.interfaces.contains name).map FieldsType.name := by
  rw [built.possible_names, said_by_objects silent, ← Schema.objects,
    add_own_names built.distinct_objects]
  · apply congrArg (List.map FieldsType.name)
    apply List.filter_congr
    intro object _
    rw [said_by_object, Bool.eq_iff_iff]
    simp
  · intro object _ other said
    rw [said_by_object] at said
    obtain ⟨_, _, rfl⟩ := List.mem_map.mp said
    rfl

/-- Types that have one name are the same. -/
theorem Schema.Built.same_of_name (built : schema.Built) {type' : SchemaType}
    (member : type ∈ schema.types) (member' : type' ∈ schema.types)
    (same : type.name = type'.name) : type = type' := by
  have found := built.found member
  rw [same, built.found member'] at found
  exact (Option.some.inj found).symm

theorem interface_names (built : schema.Built) {interface : FieldsType}
    (member : .interface interface ∈ schema.types) :
    schema.possibleNames interface.name =
      (schema.objects.filter fun object =>
        object.interfaces.contains interface.name).map FieldsType.name := by
  apply names_said_by_objects built
  intro speaker speaks no_object
  apply silent_others interface.name no_object
  rintro union rfl same
  cases built.same_of_name speaks member same

/-- Of a type that is no interface nothing is said but by a union of its name. -/
theorem silent_speaker (built : schema.Built) (member : type ∈ schema.types)
    (no_interface : type.interface? = none) {speaker : SchemaType} (speaks : speaker ∈ schema.types)
    (no_union : ∀ union, speaker = .union union → union.name ≠ type.name) :
    saidOf type.name speaker.possibilities = [] := by
  cases speaker with
  | object object => exact silent_object built member no_interface speaks
  | _ => exact silent_others type.name rfl no_union

theorem union_names (built : schema.Built) {union : UnionType}
    (member : .union union ∈ schema.types) : schema.possibleNames union.name = union.members := by
  -- Only one type has the name, so what stands before the union and after it says nothing.
  obtain ⟨before, after, split⟩ := List.append_of_mem member
  have distinct := built.distinct
  rw [Named.Distinct, split, List.map_append, List.map_cons, List.perm_middle.nodup_iff,
    List.nodup_cons, ← List.map_append] at distinct
  have silent (speaker : SchemaType) (other : speaker ∈ before ++ after) :
      saidOf union.name speaker.possibilities = [] := by
    have speaks : speaker ∈ schema.types := by
      rw [split]
      exact List.mem_append.mpr ((List.mem_append.mp other).imp_right (List.mem_cons_of_mem _))
    apply silent_speaker built member rfl speaks
    rintro _ rfl same
    exact distinct.1 (List.mem_map.mpr ⟨_, other, same⟩)
  have before_silent := List.flatMap_eq_nil_iff.mpr fun speaker early =>
    silent speaker (List.mem_append_left _ early)
  have after_silent := List.flatMap_eq_nil_iff.mpr fun speaker late =>
    silent speaker (List.mem_append_right _ late)
  rw [built.possible_names, said_of_possibilities, split, List.flatMap_append, List.flatMap_cons,
    before_silent, after_silent, List.nil_append, List.append_nil, SchemaType.possibilities,
    said_of_cons_same]
  rw [show saidOf union.name [] = [] from rfl, List.append_nil]
  exact add_distinct_names (built.distinct_members member)

/-- Nothing is said of a type that is neither an interface nor a union. -/
theorem concrete_names (built : schema.Built) (member : type ∈ schema.types)
    (concrete : type.isAbstract = false) : schema.possibleNames type.name = [] := by
  have silent : saidOf type.name (possibilities schema.types) = [] := by
    rw [said_of_possibilities, List.flatMap_eq_nil_iff]
    intro speaker speaks
    have no_interface : type.interface? = none := by cases type <;> first | rfl | cases concrete
    apply silent_speaker built member no_interface speaks
    rintro union rfl same
    cases built.same_of_name speaks member same
    cases concrete
  rw [built.possible_names, silent]
  rfl

end Speakers

section Queries
variable {schema : Schema}

/-- The object types that stand for a type, in their order. -/
def StandIns (schema : Schema) (objects : List FieldsType) : SchemaType → Prop
  | .interface t => objects = schema.objects.filter fun object => object.interfaces.contains t.name
  | .union t => List.Forall₂ (fun name object => schema.type? name = some (.object object))
      t.members objects
  | .object t => objects = [t]
  | .builtin _ | .scalar _ | .enum _ | .input _ => objects = []

theorem objects_of_names (built : schema.Built) {objects : List FieldsType}
    (all : ∀ object ∈ objects, .object object ∈ schema.types) :
    (objects.map FieldsType.name).filterMap schema.object? = objects := by
  induction objects with
  | nil => rfl
  | cons object rest ih =>
      obtain ⟨member, all⟩ := List.forall_mem_cons.mp all
      rw [List.map_cons, List.filterMap_cons_some (built.object_found member), ih all]

theorem members_found {names : List String} (objects : ∀ name ∈ names, IsObject schema.types name) :
    List.Forall₂ (fun name object => schema.type? name = some (.object object)) names
      (names.filterMap schema.object?) := by
  induction names with
  | nil => exact .nil
  | cons name rest ih =>
      obtain ⟨⟨object, found⟩, later⟩ := List.forall_mem_cons.mp objects
      rw [List.filterMap_cons_some (Schema.object_some_iff.mpr found)]
      exact .cons found (ih later)

theorem names_found_sublist (names : List String) :
    ((names.filterMap schema.object?).map FieldsType.name).Sublist names := by
  induction names with
  | nil => exact .slnil
  | cons name rest ih =>
      rw [List.filterMap_cons]
      cases found : schema.object? name with
      | none => exact ih.cons name
      | some object =>
          have named : object.name = name :=
            Named.name_of_find? (Schema.object_some_iff.mp found)
          rw [List.map_cons, named]
          exact ih.cons_cons name

theorem mem_found_iff (built : schema.Built) {object : FieldsType}
    (member : .object object ∈ schema.types) (names : List String) :
    object ∈ names.filterMap schema.object? ↔ object.name ∈ names := by
  constructor
  · intro found
    exact (names_found_sublist names).subset (List.mem_map_of_mem found)
  · exact fun listed => List.mem_filterMap.mpr ⟨_, listed, built.object_found member⟩

theorem possible_eq_of_abstract {type : SchemaType} (abstract : type.isAbstract = true) :
    schema.possibleTypes type = (schema.possibleNames type.name).filterMap schema.object? := by
  cases type <;> first | rfl | cases abstract

theorem is_possible_of_other {type : SchemaType} (other : type.object? = none)
    (object : FieldsType) :
    schema.isPossible type object = (schema.possibleNames type.name).contains object.name := by
  cases type <;> first | rfl | cases other

theorem stand_ins (built : schema.Built) {type : SchemaType} (member : type ∈ schema.types) :
    StandIns schema (schema.possibleTypes type) type := by
  cases type with
  | interface interface =>
      rw [possible_eq_of_abstract rfl]
      have names := interface_names built member
      show (schema.possibleNames interface.name).filterMap schema.object? = _
      rw [names]
      exact objects_of_names built fun object listed =>
        Schema.mem_objects.mp (List.mem_of_mem_filter listed)
  | union union =>
      rw [possible_eq_of_abstract rfl]
      show List.Forall₂ _ union.members ((schema.possibleNames union.name).filterMap schema.object?)
      rw [union_names built member]
      exact members_found (built.fits member).members
  | _ => rfl

theorem distinct_possible_types (built : schema.Built) (type : SchemaType) :
    ((schema.possibleTypes type).map FieldsType.name).Nodup := by
  have named (names : List String) (distinct : names.Nodup) :
      ((names.filterMap schema.object?).map FieldsType.name).Nodup :=
    (names_found_sublist names).nodup distinct
  have collected (name : String) : (schema.possibleNames name).Nodup := by
    rw [built.possible_names]
    exact Draft.nodup_add_names List.nodup_nil
  cases type with
  | object object => exact List.nodup_cons.mpr ⟨List.not_mem_nil, List.nodup_nil⟩
  | interface interface => exact named _ (collected interface.name)
  | union union => exact named _ (collected union.name)
  | _ => exact List.nodup_nil

theorem is_possible_iff (built : schema.Built) {type : SchemaType} (member : type ∈ schema.types)
    {object : FieldsType} (own : .object object ∈ schema.types) :
    schema.isPossible type object = true ↔ object ∈ schema.possibleTypes type := by
  by_cases abstract : type.isAbstract = true
  · have other : type.object? = none := by cases type <;> first | rfl | cases abstract
    rw [is_possible_of_other other, possible_eq_of_abstract abstract, List.contains_iff_mem,
      mem_found_iff built own]
  · cases type with
    | object only =>
        show (only.name == object.name) = true ↔ object ∈ [only]
        rw [beq_iff_eq, List.mem_singleton]
        constructor
        · intro same
          cases built.same_of_name member own same
          rfl
        · exact fun same => congrArg FieldsType.name same.symm
    | interface _ | union _ => exact absurd rfl abstract
    | _ =>
        rw [is_possible_of_other rfl, concrete_names built member rfl]
        exact iff_of_false Bool.false_ne_true List.not_mem_nil

/-- In a schema that was built the object types that stand for an interface are those that
list it, in the order of the types; for a union they are its members as it lists them, for
an object type it is this type alone, and for all others there are none. No two of them
have one name, and the test of one object type agrees with the list. -/
theorem possible_types_are_exact (built : schema.Built) (type : SchemaType)
    (member : type ∈ schema.types) :
    StandIns schema (schema.possibleTypes type) type ∧
      ((schema.possibleTypes type).map FieldsType.name).Nodup ∧
      ∀ object, .object object ∈ schema.types →
        (schema.isPossible type object = true ↔ object ∈ schema.possibleTypes type) :=
  ⟨stand_ins built member, distinct_possible_types built type,
    fun _ own => is_possible_iff built member own⟩

/-- An interface that one object type lists twice and another one after it. -/
theorem objects_of_node :
    let item : FieldsDefinition := ⟨.start, none, "Item", [⟨.start, "Node"⟩], [], [idField]⟩
    let query : FieldsDefinition :=
      ⟨.start, none, "Query", [⟨.start, "Node"⟩, ⟨.start, "Node"⟩], [], [idField]⟩
    let type : SchemaType := .interface (.ofDefinition nodeInterface)
    ∃ schema : Schema, schema.Built ∧ type ∈ schema.types ∧
      (StandIns schema (schema.possibleTypes type) type ∧
        ((schema.possibleTypes type).map FieldsType.name).Nodup ∧
        ∀ object, .object object ∈ schema.types →
          (schema.isPossible type object = true ↔ object ∈ schema.possibleTypes type)) ∧
      schema.possibleTypes type = [.ofDefinition query, .ofDefinition item] := by
  intro item query type
  let definitions : List Definition := [.object query, .interface nodeInterface, .object item]
  have makes : (schemaOf [⟨definitions⟩]).isOk = true := by decide +kernel
  obtain ⟨schema, built, types⟩ := built_of_makes makes
  replace types : schema.types = builtinTypes ++ [.object (.ofDefinition query), type,
    .object (.ofDefinition item)] := types
  have member : type ∈ schema.types := by
    rw [types]
    simp
  have listed := possible_types_are_exact built type member
  refine ⟨schema, built, member, listed, listed.1.trans ?_⟩
  rw [Schema.objects, types]
  rfl

end Queries
end GraphQL
