import GraphQL.Document.Node
import GraphQL.Schema.Basic

/-! What is known about types at a node of a document. Entering a node and leaving it
keep stacks in step with the tour; what cannot be resolved is kept as unknown, so that
nothing below it is resolved either. -/
namespace GraphQL

structure Scope where
  types : List (Option TypeExpr)
  parents : List (Option SchemaType)
  inputs : List (Option TypeExpr)
  fields : List (Option OutputField)
  directive? : Option DirectiveRule
  argument? : Option InputValue

namespace Scope

def empty : Scope := ⟨[], [], [], [], none, none⟩

section Knowledge
variable (scope : Scope)

def top {α : Type} : List (Option α) → Option α
  | [] => none
  | first :: _ => first

/-- The type of what the node is part of: a root, a type condition or a field. -/
def type? : Option TypeExpr := top scope.types

/-- The composite type of which fields are selected. -/
def parent? : Option SchemaType := top scope.parents

/-- The type that an argument, a variable or a value in one of them should have. -/
def input? : Option TypeExpr := top scope.inputs

def parentInput? : Option TypeExpr := top scope.inputs.tail

def field? : Option OutputField := top scope.fields

end Knowledge

section Resolution
variable (schema : Schema)

def isInput (type : TypeExpr) : Bool :=
  (schema.innermost? type).any SchemaType.isInput

def isOutput (type : TypeExpr) : Bool :=
  (schema.innermost? type).any SchemaType.isOutput

def lookupField (parent : SchemaType) (name : String) : Option OutputField :=
  if name == typenameField.name && parent.isComposite then some typenameField
  else Named.find? name parent.fields

def compositeOf (type : TypeExpr) : Option SchemaType :=
  (schema.innermost? type).filter SchemaType.isComposite

def rootType (kind : OperationKind) : Option TypeExpr :=
  (schema.root? kind).map fun type => .named type.name true

def conditionType (condition : NamedType) : Option TypeExpr :=
  (some (TypeExpr.named condition.name true)).filter (isOutput schema)

/-- Without a condition, the named type that the selection already has. -/
def inlineType (scope : Scope) : Option NamedType → Option TypeExpr
  | some condition => conditionType schema condition
  | none =>
      (scope.type?.map fun type => TypeExpr.named type.innermostName true).filter (isOutput schema)

def fieldDefinition (scope : Scope) (name : String) : Option OutputField :=
  scope.parent?.bind fun parent => lookupField parent name

/-- Arguments are those of the enclosing directive if there is one, and else of the
enclosing field. -/
def parameter (scope : Scope) (name : String) : Option InputValue :=
  match scope.directive? with
  | some directive => Named.find? name directive.parameters
  | none => scope.field?.bind fun field => Named.find? name field.parameters

def itemOf (type : TypeExpr) : TypeExpr := type.inner?.getD type

def inputFieldOf (name : String) : SchemaType → Option InputValue
  | .input type => Named.find? name type.fields
  | _ => none

def inputFieldType (scope : Scope) (name : String) : Option TypeExpr :=
  ((scope.input?.bind schema.innermost?).bind (inputFieldOf name)).map InputValue.type

end Resolution

section Stacks

def pushType (type : Option TypeExpr) (scope : Scope) : Scope :=
  { scope with types := type :: scope.types }

def pushParent (parent : Option SchemaType) (scope : Scope) : Scope :=
  { scope with parents := parent :: scope.parents }

def pushInput (type : Option TypeExpr) (scope : Scope) : Scope :=
  { scope with inputs := type :: scope.inputs }

def pushField (field : Option OutputField) (scope : Scope) : Scope :=
  { scope with fields := field :: scope.fields }

def popType (scope : Scope) : Scope := { scope with types := scope.types.tail }

def popParent (scope : Scope) : Scope := { scope with parents := scope.parents.tail }

def popInput (scope : Scope) : Scope := { scope with inputs := scope.inputs.tail }

def popField (scope : Scope) : Scope := { scope with fields := scope.fields.tail }

end Stacks

section Steps
variable (schema : Schema)

def enterField (scope : Scope) (name : String) : Scope :=
  let field := scope.fieldDefinition name
  (scope.pushField field).pushType ((field.map OutputField.type).filter (isOutput schema))

def enterArgument (scope : Scope) (name : String) : Scope :=
  let argument := scope.parameter name
  pushInput ((argument.map InputValue.type).filter (isInput schema))
    { scope with argument? := argument }

def enter (scope : Scope) : Node → Scope
  | .selectionSet _ => scope.pushParent (scope.type?.bind (compositeOf schema))
  | .selection (.field f) => scope.enterField schema f.name
  | .selection (.inline f) => scope.pushType (scope.inlineType schema f.typeCondition?)
  | .directive d => { scope with directive? := schema.directive? d.name }
  | .definition (.operation d) => scope.pushType (rootType schema d.kind)
  | .definition (.fragment d) => scope.pushType (conditionType schema d.typeCondition)
  | .variableDefinition d =>
      scope.pushInput ((some (TypeExpr.ofRef d.type)).filter (isInput schema))
  | .argument a => scope.enterArgument schema a.name
  | .value ⟨_, .list _⟩ => scope.pushInput ((scope.input?.map itemOf).filter (isInput schema))
  | .objectField f => scope.pushInput ((scope.inputFieldType schema f.name).filter (isInput schema))
  | _ => scope

def leave (scope : Scope) : Node → Scope
  | .selectionSet _ => scope.popParent
  | .selection (.field _) => scope.popField.popType
  | .selection (.inline _) => scope.popType
  | .directive _ => { scope with directive? := none }
  | .definition (.operation _) => scope.popType
  | .definition (.fragment _) => scope.popType
  | .variableDefinition _ => scope.popInput
  | .argument _ => popInput { scope with argument? := none }
  | .value ⟨_, .list _⟩ => scope.popInput
  | .objectField _ => scope.popInput
  | _ => scope

end Steps

end Scope
end GraphQL
