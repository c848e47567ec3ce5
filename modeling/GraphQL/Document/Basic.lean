import GraphQL.Document.Value

/-! A document: operations and fragments, or the definitions of a type system, or both.
Every part of it carries the place where it stands. -/
namespace GraphQL

inductive OperationKind where
  | query
  | mutation
  | subscription
deriving DecidableEq

namespace OperationKind

def all : List OperationKind := [query, mutation, subscription]

def name : OperationKind → String
  | query => "query"
  | mutation => "mutation"
  | subscription => "subscription"

theorem mem_all (kind : OperationKind) : kind ∈ all := by cases kind <;> simp [all]

end OperationKind

structure Argument where
  position : Position
  name : String
  value : Value
deriving BEq

structure Directive where
  position : Position
  name : String
  arguments : List Argument
deriving BEq

section Selections

structure FragmentSpread where
  position : Position
  fragment : String
  directives : List Directive
deriving BEq

mutual

structure SelectionSet where
  position : Position
  selections : List Selection

inductive Selection where
  | field (field : Field)
  | spread (spread : FragmentSpread)
  | inline (fragment : InlineFragment)

structure Field where
  position : Position
  alias? : Option String
  name : String
  arguments : List Argument
  directives : List Directive
  selectionSet? : Option SelectionSet

structure InlineFragment where
  position : Position
  typeCondition? : Option NamedType
  directives : List Directive
  selectionSet : SelectionSet

end

namespace Field

/-- The key under which the result of a field is returned. -/
def responseKey (field : Field) : String := field.alias?.getD field.name

end Field

mutual

def SelectionSet.same : SelectionSet → SelectionSet → Bool
  | ⟨place, selections⟩, ⟨place', selections'⟩ =>
      place == place' && sameSelections selections selections'

def sameSelections : List Selection → List Selection → Bool
  | [], [] => true
  | selection :: rest, selection' :: rest' =>
      selection.same selection' && sameSelections rest rest'
  | _, _ => false

def Selection.same : Selection → Selection → Bool
  | .field field, .field field' => field.same field'
  | .spread spread, .spread spread' => spread == spread'
  | .inline fragment, .inline fragment' => fragment.same fragment'
  | _, _ => false

def Field.same : Field → Field → Bool
  | ⟨place, key, name, arguments, directives, selections⟩,
    ⟨place', key', name', arguments', directives', selections'⟩ =>
      place == place' && key == key' && name == name' && arguments == arguments' &&
        directives == directives' && sameOptional selections selections'

def sameOptional : Option SelectionSet → Option SelectionSet → Bool
  | none, none => true
  | some selections, some selections' => selections.same selections'
  | _, _ => false

def InlineFragment.same : InlineFragment → InlineFragment → Bool
  | ⟨place, condition, directives, selections⟩,
    ⟨place', condition', directives', selections'⟩ =>
      place == place' && condition == condition' && directives == directives' &&
        selections.same selections'

end

instance : BEq SelectionSet := ⟨SelectionSet.same⟩
instance : BEq Selection := ⟨Selection.same⟩

end Selections

section ExecutableDefinitions

/-- The name of a variable is kept without its dollar sign. -/
structure VariableDefinition where
  position : Position
  name : String
  type : TypeRef
  default? : Option Value
deriving BEq

structure Operation where
  position : Position
  kind : OperationKind
  name? : Option String
  variableDefinitions : List VariableDefinition
  directives : List Directive
  selectionSet : SelectionSet
deriving BEq

structure Fragment where
  position : Position
  name : String
  typeCondition : NamedType
  directives : List Directive
  selectionSet : SelectionSet
deriving BEq

end ExecutableDefinitions

section TypeSystemDefinitions

structure RootTypeDefinition where
  position : Position
  operation : OperationKind
  type : NamedType
deriving BEq

structure SchemaDefinition where
  position : Position
  directives : List Directive
  rootTypes : List RootTypeDefinition
deriving BEq

structure InputValueDefinition where
  position : Position
  description? : Option String
  name : String
  type : TypeRef
  default? : Option Value
  directives : List Directive
deriving BEq

structure FieldDefinition where
  position : Position
  description? : Option String
  name : String
  arguments : List InputValueDefinition
  type : TypeRef
  directives : List Directive
deriving BEq

structure ScalarDefinition where
  position : Position
  description? : Option String
  name : String
  directives : List Directive
deriving BEq

/-- The definition of an object type or of an interface type, which are written alike. -/
structure FieldsDefinition where
  position : Position
  description? : Option String
  name : String
  interfaces : List NamedType
  directives : List Directive
  fields : List FieldDefinition
deriving BEq

structure UnionDefinition where
  position : Position
  description? : Option String
  name : String
  directives : List Directive
  members : List NamedType
deriving BEq

structure EnumValueDefinition where
  position : Position
  description? : Option String
  name : String
  directives : List Directive
deriving BEq

structure EnumDefinition where
  position : Position
  description? : Option String
  name : String
  directives : List Directive
  values : List EnumValueDefinition
deriving BEq

structure InputObjectDefinition where
  position : Position
  description? : Option String
  name : String
  directives : List Directive
  fields : List InputValueDefinition
deriving BEq

structure DirectiveDefinition where
  position : Position
  description? : Option String
  name : String
  arguments : List InputValueDefinition
  repeatable : Bool
  locations : List String
deriving BEq

end TypeSystemDefinitions

inductive Definition where
  | operation (definition : Operation)
  | fragment (definition : Fragment)
  | schema (definition : SchemaDefinition)
  | scalar (definition : ScalarDefinition)
  | object (definition : FieldsDefinition)
  | interface (definition : FieldsDefinition)
  | union (definition : UnionDefinition)
  | enum (definition : EnumDefinition)
  | input (definition : InputObjectDefinition)
  | directive (definition : DirectiveDefinition)
deriving BEq

namespace Definition

def position : Definition → Position
  | operation d => d.position
  | fragment d => d.position
  | schema d => d.position
  | scalar d => d.position
  | object d => d.position
  | interface d => d.position
  | union d => d.position
  | enum d => d.position
  | input d => d.position
  | directive d => d.position

def isExecutable : Definition → Bool
  | operation _ | fragment _ => true
  | _ => false

def operation? : Definition → Option Operation
  | operation d => some d
  | _ => none

def fragment? : Definition → Option Fragment
  | fragment d => some d
  | _ => none

end Definition

structure Document where
  definitions : List Definition
deriving BEq

namespace Document

def operations (document : Document) : List Operation :=
  document.definitions.filterMap Definition.operation?

def fragments (document : Document) : List Fragment :=
  document.definitions.filterMap Definition.fragment?

end Document

end GraphQL
