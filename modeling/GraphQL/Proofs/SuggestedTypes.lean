import GraphQL.Proofs.PossibleObjects
import GraphQL.Validation.FieldRules

/-! Which types are suggested in place of an abstract parent that lacks a field. They are
collected in a table, object by object and each object with its interfaces, and the table is
sorted in the end. Whatever is counted on the way, its names are those of the possible types
that have the field and of their interfaces that have it, each of them once. -/
namespace GraphQL

open Rules

section Collecting
variable {schema : Schema} {candidates : List Candidate} {field name : String}

/-- Using an interface changes its entry or adds one, and leaves all other names alone. -/
theorem use_interface_eq (candidates : List Candidate) (name : String) :
    ∃ item : Candidate, item.name = name ∧
      useInterface candidates name = Named.put item candidates := by
  rw [useInterface]
  cases found : Named.find? name candidates with
  | none => exact ⟨⟨name, 1, true⟩, rfl, rfl⟩
  | some known =>
      exact ⟨{ known with uses := known.uses + 1 }, Named.name_of_find? found, rfl⟩

theorem mem_use_interfaces (used : List String) :
    name ∈ (used.foldl useInterface candidates).map Named.nameOf ↔
      name ∈ used ∨ name ∈ candidates.map Named.nameOf := by
  induction used generalizing candidates with
  | nil => simp
  | cons first rest ih =>
      obtain ⟨item, rfl, put⟩ := use_interface_eq candidates first
      rw [List.foldl_cons, ih, put, Named.mem_names_put, List.mem_cons, or_left_comm, or_assoc]
      exact Iff.rfl

theorem distinct_use_interfaces (distinct : Named.Distinct candidates) (used : List String) :
    Named.Distinct (used.foldl useInterface candidates) := by
  induction used generalizing candidates with
  | nil => exact distinct
  | cons first rest ih =>
      obtain ⟨item, _, put⟩ := use_interface_eq candidates first
      rw [List.foldl_cons, put]
      exact ih (Named.distinct_put distinct item)

/-- What an object that has the field adds to the names: its own and those of its interfaces
that have the field too. -/
def FieldsType.Adds (schema : Schema) (field name : String) (object : FieldsType) : Prop :=
  Named.has field object.fields = true ∧
    (name = object.name ∨ name ∈ object.interfaces ∧ hasField schema field name = true)

theorem mem_add_candidates (object : FieldsType) :
    name ∈ (addCandidates schema field candidates object).map Named.nameOf ↔
      object.Adds schema field name ∨ name ∈ candidates.map Named.nameOf := by
  rw [addCandidates, FieldsType.Adds]
  split
  · next has =>
    rw [mem_use_interfaces, Named.mem_names_put, List.mem_filter, has, eq_self, true_and,
      or_left_comm, or_assoc]
    exact Iff.rfl
  · next lacks => simp [lacks]

theorem distinct_add_candidates (distinct : Named.Distinct candidates) (object : FieldsType) :
    Named.Distinct (addCandidates schema field candidates object) := by
  rw [addCandidates]
  split
  · exact distinct_use_interfaces (Named.distinct_put distinct _) _
  · exact distinct

theorem mem_candidates_of (objects : List FieldsType) :
    name ∈ (objects.foldl (addCandidates schema field) candidates).map Named.nameOf ↔
      (∃ object ∈ objects, object.Adds schema field name) ∨
        name ∈ candidates.map Named.nameOf := by
  induction objects generalizing candidates with
  | nil => simp
  | cons first rest ih =>
      rw [List.foldl_cons, ih, mem_add_candidates, or_left_comm, ← or_assoc]
      simp only [List.mem_cons, exists_eq_or_imp]

theorem distinct_candidates_of (distinct : Named.Distinct candidates) (objects : List FieldsType) :
    Named.Distinct (objects.foldl (addCandidates schema field) candidates) := by
  induction objects generalizing candidates with
  | nil => exact distinct
  | cons first rest ih => exact ih (distinct_add_candidates distinct first)

end Collecting

section Suggestions
variable {schema : Schema} {parent : SchemaType} {field name : String}

theorem suggested_types_eq (abstract : parent.isAbstract = true) :
    suggestedTypes schema parent field =
      (((schema.possibleTypes parent).foldl (addCandidates schema field) []).mergeSort
        Candidate.before).map Named.nameOf :=
  if_pos abstract

theorem abstract_of_suggested (suggested : name ∈ suggestedTypes schema parent field) :
    parent.isAbstract = true := by
  rw [suggestedTypes] at suggested
  split at suggested
  · next abstract => exact abstract
  · cases suggested

theorem mem_suggested_types (abstract : parent.isAbstract = true) :
    name ∈ suggestedTypes schema parent field ↔
      ∃ object ∈ schema.possibleTypes parent, object.Adds schema field name := by
  rw [suggested_types_eq abstract, ((List.mergeSort_perm _ _).map Named.nameOf).mem_iff,
    mem_candidates_of, List.map_nil]
  exact or_iff_left List.not_mem_nil

theorem suggested_types_nodup (schema : Schema) (parent : SchemaType) (field : String) :
    (suggestedTypes schema parent field).Nodup := by
  by_cases abstract : parent.isAbstract = true
  · rw [suggested_types_eq abstract, ((List.mergeSort_perm _ _).map Named.nameOf).nodup_iff]
    have empty : Named.Distinct ([] : List Candidate) := List.nodup_nil
    exact distinct_candidates_of empty (schema.possibleTypes parent)
  · rw [suggestedTypes, if_neg abstract]
    exact List.nodup_nil

/-- The type has a field of the name. -/
def FieldsType.Defines (type : FieldsType) (field : String) : Prop :=
  ∃ definition ∈ type.fields, definition.name = field

/-- The possible types of a parent that have the field, and those of their interfaces that
have it. -/
inductive Suggested (schema : Schema) (parent : SchemaType) (field : String) : String → Prop where
  | object {object : FieldsType} (stands : object ∈ schema.possibleTypes parent)
      (defines : object.Defines field) : Suggested schema parent field object.name
  | interface {object interface : FieldsType} {name : String}
      (stands : object ∈ schema.possibleTypes parent) (defines : object.Defines field)
      (listed : name ∈ object.interfaces) (found : IsInterface schema.types name interface)
      (shared : interface.Defines field) : Suggested schema parent field name

theorem possible_types_are_types {object : FieldsType} (member : parent ∈ schema.types)
    (stands : object ∈ schema.possibleTypes parent) : .object object ∈ schema.types := by
  have found (names : List String) (listed : object ∈ names.filterMap schema.object?) :
      .object object ∈ schema.types := by
    obtain ⟨name, _, found⟩ := List.mem_filterMap.mp listed
    exact Named.mem_of_find? (Schema.object_some_iff.mp found)
  cases parent with
  | object only =>
      rw [List.mem_singleton.mp stands]
      exact member
  | interface _ | union _ => exact found _ stands
  | _ => cases stands

theorem has_field_iff {interface : FieldsType} (found : IsInterface schema.types name interface) :
    hasField schema field name = true ↔ interface.Defines field := by
  have same : schema.type? name = some (.interface interface) := found
  rw [hasField, same]
  exact Named.has_iff field interface.fields

/-- The interfaces that an object lists are those of the schema. -/
theorem adds_iff (built : schema.Built) {object : FieldsType}
    (member : .object object ∈ schema.types) :
    object.Adds schema field name ↔ object.Defines field ∧ (name = object.name ∨
      name ∈ object.interfaces ∧ ∃ interface, IsInterface schema.types name interface ∧
        interface.Defines field) := by
  apply and_congr (Named.has_iff field object.fields)
  apply or_congr_right
  apply and_congr_right
  intro listed
  obtain ⟨interface, found⟩ := (built.fits member).interfaces name listed
  rw [has_field_iff found]
  constructor
  · exact fun shared => ⟨interface, found, shared⟩
  · rintro ⟨other, found', shared⟩
    cases found.symm.trans found'
    exact shared

theorem suggested_iff (built : schema.Built) (member : parent ∈ schema.types)
    (abstract : parent.isAbstract = true) :
    name ∈ suggestedTypes schema parent field ↔ Suggested schema parent field name := by
  rw [mem_suggested_types abstract]
  constructor
  · rintro ⟨object, stands, adds⟩
    have own := possible_types_are_types member stands
    obtain ⟨defines, rfl | ⟨listed, interface, found, shared⟩⟩ := (adds_iff built own).mp adds
    · exact .object stands defines
    · exact .interface stands defines listed found shared
  · intro suggested
    cases suggested with
    | object stands defines =>
        have own := possible_types_are_types member stands
        exact ⟨_, stands, (adds_iff built own).mpr ⟨defines, .inl rfl⟩⟩
    | interface stands defines listed found shared =>
        have own := possible_types_are_types member stands
        exact ⟨_, stands, (adds_iff built own).mpr ⟨defines, .inr ⟨listed, _, found, shared⟩⟩⟩

/-- A suggested type can be selected from, and it has the field. -/
theorem Suggested.type (built : schema.Built) (member : parent ∈ schema.types)
    (suggested : Suggested schema parent field name) :
    ∃ type, schema.type? name = some type ∧ type.isComposite = true ∧
      ∃ definition ∈ type.fields, definition.name = field := by
  cases suggested with
  | object stands defines =>
      have own := possible_types_are_types member stands
      exact ⟨_, built.found own, rfl, defines⟩
  | interface _ _ _ found shared => exact ⟨_, found, rfl, shared⟩

end Suggestions
end GraphQL
