import GraphQL.Document.Spreads
import GraphQL.Schema.Basic

/-! Which executable documents are valid for a schema. Everything is said by recursion over
the selections of a document: the type that a selection is made of is handed down from the
root of an operation or the condition of a fragment. -/
namespace GraphQL

section ExecutableDocuments

/-- No type that admits no null is said to do so twice. -/
def TypeRef.Unrepeated : TypeRef → Prop
  | .named _ => True
  | .list _ inner => inner.Unrepeated
  | .nonNull _ (.nonNull _ _) => False
  | .nonNull _ inner => inner.Unrepeated

def Definition.Executable : Definition → Prop
  | .operation d => ∀ definition ∈ d.variableDefinitions, definition.type.Unrepeated
  | .fragment _ => True
  | _ => False

def Document.Executable (document : Document) : Prop :=
  document.definitions ≠ [] ∧ ∀ definition ∈ document.definitions, definition.Executable

end ExecutableDocuments

section Definitions

theorem mem_operations (document : Document) (operation : Operation) :
    operation ∈ document.operations ↔ Definition.operation operation ∈ document.definitions := by
  rw [Document.operations, List.mem_filterMap]
  constructor
  · rintro ⟨definition, member, same⟩
    cases definition with
    | operation d =>
        cases same
        exact member
    | _ => cases same
  · intro member
    exact ⟨_, member, rfl⟩

theorem mem_fragments (document : Document) (fragment : Fragment) :
    fragment ∈ document.fragments ↔ Definition.fragment fragment ∈ document.definitions := by
  rw [Document.fragments, List.mem_filterMap]
  constructor
  · rintro ⟨definition, member, same⟩
    cases definition with
    | fragment d =>
        cases same
        exact member
    | _ => cases same
  · intro member
    exact ⟨_, member, rfl⟩

end Definitions

section Selections
variable {Context : Type} (inside : Context → Selection → Context)

mutual

/-- The selections of a set at any depth, each with what is handed down to it. -/
def SelectionSet.sites (context : Context) : SelectionSet → List (Context × Selection)
  | ⟨_, selections⟩ => sitesOfAll context selections

def sitesOfAll (context : Context) : List Selection → List (Context × Selection)
  | [] => []
  | selection :: rest =>
      (context, selection) ::
        (selection.sitesBelow (inside context selection) ++ sitesOfAll context rest)

def Selection.sitesBelow (context : Context) : Selection → List (Context × Selection)
  | .field field => field.sitesBelow context
  | .spread _ => []
  | .inline ⟨_, _, _, set⟩ => set.sites context

def Field.sitesBelow (context : Context) : Field → List (Context × Selection)
  | ⟨_, _, _, _, _, set?⟩ => sitesOfOptional context set?

def sitesOfOptional (context : Context) : Option SelectionSet → List (Context × Selection)
  | none => []
  | some set => set.sites context

end

theorem sites_below_eq (context : Context) (selection : Selection) :
    selection.sitesBelow inside context =
      selection.nested?.toList.flatMap (SelectionSet.sites inside context) := by
  cases selection with
  | field f =>
      rcases f with ⟨_, _, _, _, _, _ | set⟩
      · simp [Selection.sitesBelow, Field.sitesBelow, sitesOfOptional, Selection.nested?]
      · simp [Selection.sitesBelow, Field.sitesBelow, sitesOfOptional, Selection.nested?]
  | spread s => simp [Selection.sitesBelow, Selection.nested?]
  | inline f =>
      cases f
      simp [Selection.sitesBelow, Selection.nested?]

theorem SelectionSet.sites_eq (context : Context) (set : SelectionSet) :
    set.sites inside context = set.selections.flatMap fun selection =>
      (context, selection) :: selection.nested?.toList.flatMap
        (SelectionSet.sites inside (inside context selection)) := by
  rcases set with ⟨place, selections⟩
  rw [SelectionSet.sites]
  induction selections with
  | nil => simp [sitesOfAll]
  | cons selection rest ih =>
      rw [sitesOfAll, ih, sites_below_eq, List.flatMap_cons, List.cons_append]

/-- What holds at every site, said of the selections of the set itself first. -/
theorem SelectionSet.forall_sites {holds : Context × Selection → Prop} (context : Context)
    (set : SelectionSet) :
    (∀ site ∈ set.sites inside context, holds site) ↔
      ∀ selection ∈ set.selections, holds (context, selection) ∧
        ∀ nested, selection.nested? = some nested →
          ∀ site ∈ nested.sites inside (inside context selection), holds site := by
  rw [set.sites_eq, List.forall_mem_flatMap]
  apply forall₂_congr
  intro selection member
  rw [List.forall_mem_cons]
  apply and_congr_right
  intro _
  cases selection.nested? <;> simp

/-- What holds of a selection set as soon as it holds of the sets nested in it. -/
theorem SelectionSet.nested_induction {motive : SelectionSet → Prop}
    (step : ∀ set, (∀ selection ∈ set.selections, ∀ nested, selection.nested? = some nested →
      motive nested) → motive set) (set : SelectionSet) : motive set := by
  refine step set fun selection member nested found => nested_induction step nested
termination_by set.count
decreasing_by
  have inside : nested ∈ set.nested := List.mem_filterMap.mpr ⟨selection, member, found⟩
  obtain ⟨before, after, same⟩ := List.append_of_mem inside
  rw [set.count_eq, same, count_append, countSets]
  omega

end Selections

section Listings

def SelectionSet.all (set : SelectionSet) : List Selection :=
  (set.sites (fun _ _ => ()) ()).map Prod.snd

/-- What is handed down makes no difference to which selections there are. -/
theorem SelectionSet.sites_selections {Context : Type} (inside : Context → Selection → Context)
    (context : Context) (set : SelectionSet) :
    (set.sites inside context).map Prod.snd = set.all := by
  rw [all]
  induction set using nested_induction generalizing context with
  | step set ih =>
      rw [sites_eq, sites_eq, List.map_flatMap, List.map_flatMap, List.flatMap_def,
        List.flatMap_def]
      refine congrArg List.flatten (List.map_congr_left fun selection member => ?_)
      cases found : selection.nested? with
      | none => rfl
      | some nested =>
          have same := ih selection member nested found (inside context selection)
          simp only [Option.toList_some, List.flatMap_singleton, List.map_cons, same]

def Selection.condition? : Selection → Option NamedType
  | .inline f => f.typeCondition?
  | _ => none

namespace Document
variable (document : Document)

def selectionSets : List SelectionSet :=
  document.operations.map Operation.selectionSet ++ document.fragments.map Fragment.selectionSet

def selections : List Selection := document.selectionSets.flatMap SelectionSet.all

def variableDefinitions : List VariableDefinition :=
  document.operations.flatMap Operation.variableDefinitions

def conditions : List NamedType :=
  document.fragments.map Fragment.typeCondition ++
    document.selections.filterMap Selection.condition?

def namedTypes : List NamedType :=
  document.variableDefinitions.map (fun definition => definition.type.innermost) ++
    document.conditions

/-- A name is used by a set if it is spread there, or in a fragment that is used. -/
inductive Uses (set : SelectionSet) : String → Prop where
  | spread {spread : FragmentSpread} (found : Selection.spread spread ∈ set.all) :
      Uses set spread.fragment
  | follow {name : String} {fragment : Fragment} {spread : FragmentSpread}
      (used : Uses set name) (defined : document.fragment? name = some fragment)
      (found : Selection.spread spread ∈ fragment.selectionSet.all) : Uses set spread.fragment

end Document
end Listings

section Typing
variable (schema : Schema)

/-- The type at the core of the type of a field, if the field belongs to a composite type. -/
def SchemaType.fieldType? (parent : SchemaType) (name : String) : Option SchemaType :=
  if parent.isComposite then
    if name = "__typename" then schema.type? "String"
    else (Named.find? name parent.fields).bind fun field => schema.innermost? field.type
  else none

/-- The type that the selections below a selection are made of, as far as it is known. -/
def Selection.inside (enclosing? : Option SchemaType) : Selection → Option SchemaType
  | .field f => enclosing?.bind fun parent => parent.fieldType? schema f.name
  | .spread _ => none
  | .inline f =>
      match f.typeCondition? with
      | some condition => schema.type? condition.name
      | none => enclosing?

def SelectionSet.typed (enclosing? : Option SchemaType) (set : SelectionSet) :
    List (Option SchemaType × Selection) :=
  set.sites (Selection.inside schema) enclosing?

/-- All selections of a document with the types that they are made of. -/
def Document.typed (document : Document) : List (Option SchemaType × Selection) :=
  (document.operations.flatMap fun d =>
    d.selectionSet.typed schema ((schema.root? d.kind).map SchemaType.object)) ++
  document.fragments.flatMap fun d =>
    d.selectionSet.typed schema (schema.type? d.typeCondition.name)

structure Document.Valid (document : Document) : Prop where
  types_known : ∀ type ∈ document.namedTypes, (schema.type? type.name).isSome
  conditions_composite : ∀ condition ∈ document.conditions,
    ∃ type, schema.type? condition.name = some type ∧ type.isComposite
  variables_input : ∀ definition ∈ document.variableDefinitions,
    ∃ type, schema.type? definition.type.innermost.name = some type ∧ type.isInput
  fields_defined : ∀ parent field, (some parent, Selection.field field) ∈ document.typed schema →
    parent.isComposite →
      field.name = "__typename" ∨ ∃ definition ∈ parent.fields, definition.name = field.name
  leaves_bare : ∀ parent field, (some parent, Selection.field field) ∈ document.typed schema →
    ∀ type, parent.fieldType? schema field.name = some type →
      (field.selectionSet?.isSome ↔ ¬ type.isLeaf)
  spreads_defined : ∀ spread, Selection.spread spread ∈ document.selections →
    ∃ fragment ∈ document.fragments, fragment.name = spread.fragment
  fragments_used : ∀ fragment ∈ document.fragments,
    ∃ operation ∈ document.operations, document.Uses operation.selectionSet fragment.name

end Typing
end GraphQL
