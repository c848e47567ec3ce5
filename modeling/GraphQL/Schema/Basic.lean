import GraphQL.Schema.Types

/-! A schema: types and directives that fit together, the root types of its operations,
and for every abstract type the object types that may stand for it. Types and
directives are in the order of their definition, after what is built in. -/
namespace GraphQL

/-- The possible types of the abstract type of a name. -/
structure Possible where
  name : String
  objects : List String

instance : Named Possible := ⟨Possible.name⟩

structure Schema where
  types : List SchemaType
  directives : List DirectiveRule
  possible : List Possible
  query : String
  mutation? : Option String
  subscription? : Option String

namespace Schema

section Queries

def type? (schema : Schema) (name : String) : Option SchemaType :=
  Named.find? name schema.types

def directive? (schema : Schema) (name : String) : Option DirectiveRule :=
  Named.find? name schema.directives

def object? (schema : Schema) (name : String) : Option FieldsType :=
  (schema.type? name).bind SchemaType.object?

def possibleNames (schema : Schema) (name : String) : List String :=
  ((Named.find? name schema.possible).map Possible.objects).getD []

/-- An object type stands for itself. -/
def possibleTypes (schema : Schema) : SchemaType → List FieldsType
  | .object t => [t]
  | .interface t => (schema.possibleNames t.name).filterMap schema.object?
  | .union t => (schema.possibleNames t.name).filterMap schema.object?
  | _ => []

def isPossible (schema : Schema) (abstract : SchemaType) (object : FieldsType) : Bool :=
  match abstract with
  | .object t => t.name == object.name
  | type => (schema.possibleNames type.name).contains object.name

def rootName? (schema : Schema) : OperationKind → Option String
  | .query => some schema.query
  | .mutation => schema.mutation?
  | .subscription => schema.subscription?

def root? (schema : Schema) (kind : OperationKind) : Option FieldsType :=
  (schema.rootName? kind).bind schema.object?

def innermost? (schema : Schema) (type : TypeExpr) : Option SchemaType :=
  schema.type? type.innermostName

end Queries

end Schema
end GraphQL
