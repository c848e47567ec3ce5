import GraphQL.Document.Basic
import GraphQL.Document.NodeKind

/-! The nodes of a document. Whoever tours a document sees nodes only: the kind of each,
its place, and its children, slot by slot and in source order within a slot. A child is
smaller than its parent, so recursion over children ends. -/
namespace GraphQL

inductive Node where
  | document (document : Document)
  | definition (definition : Definition)
  | variableDefinition (definition : VariableDefinition)
  | selectionSet (set : SelectionSet)
  | selection (selection : Selection)
  | argument (argument : Argument)
  | value (value : Value)
  | objectField (field : ObjectField)
  | directive (directive : Directive)
  | type (type : TypeRef)
  | rootType (definition : RootTypeDefinition)
  | fieldDefinition (definition : FieldDefinition)
  | inputValue (definition : InputValueDefinition)
  | enumValue (definition : EnumValueDefinition)
deriving BEq

namespace Node

section Kinds

def valueKind : ValueForm → NodeKind
  | .reference _ => .reference
  | .whole _ => .intValue
  | .double _ => .floatValue
  | .string _ => .stringValue
  | .boolean _ => .booleanValue
  | .null => .nullValue
  | .enumeration _ => .enumValue
  | .list _ => .listValue
  | .object _ => .objectValue

def typeKind : TypeRef → NodeKind
  | .named _ => .namedType
  | .list _ _ => .listType
  | .nonNull _ _ => .nonNullType

def selectionKind : Selection → NodeKind
  | .field _ => .field
  | .spread _ => .fragmentSpread
  | .inline _ => .inlineFragment

def definitionKind : Definition → NodeKind
  | .operation _ => .operationDefinition
  | .fragment _ => .fragmentDefinition
  | .schema _ => .schemaDefinition
  | .scalar _ => .scalarTypeDefinition
  | .object _ => .objectTypeDefinition
  | .interface _ => .interfaceTypeDefinition
  | .union _ => .unionTypeDefinition
  | .enum _ => .enumTypeDefinition
  | .input _ => .inputObjectTypeDefinition
  | .directive _ => .directiveDefinition

def kind : Node → NodeKind
  | document _ => .document
  | definition d => definitionKind d
  | variableDefinition _ => .variableDefinition
  | selectionSet _ => .selectionSet
  | selection s => selectionKind s
  | argument _ => .argument
  | value v => valueKind v.form
  | objectField _ => .objectField
  | directive _ => .directive
  | type t => typeKind t
  | rootType _ => .operationTypeDefinition
  | fieldDefinition _ => .fieldDefinition
  | inputValue _ => .inputValueDefinition
  | enumValue _ => .enumValueDefinition

end Kinds

section Places

def selectionPosition : Selection → Position
  | .field f => f.position
  | .spread s => s.position
  | .inline f => f.position

/-- A document stands where its first definition stands. -/
def position : Node → Position
  | document d => (d.definitions.head?.map Definition.position).getD .start
  | definition d => d.position
  | variableDefinition d => d.position
  | selectionSet s => s.position
  | selection s => selectionPosition s
  | argument a => a.position
  | value v => v.position
  | objectField f => f.position
  | directive d => d.position
  | type t => t.position
  | rootType d => d.position
  | fieldDefinition d => d.position
  | inputValue d => d.position
  | enumValue d => d.position

end Places

section Children

def ofSelection : Selection → List Node
  | .field f =>
      f.arguments.map argument ++ f.directives.map directive ++
        (f.selectionSet?.map selectionSet).toList
  | .spread s => s.directives.map directive
  | .inline f =>
      (f.typeCondition?.map fun t => type (.named t)).toList ++ f.directives.map directive ++
        [selectionSet f.selectionSet]

def ofValue : ValueForm → List Node
  | .list items => items.map value
  | .object fields => fields.map objectField
  | _ => []

def ofTypeRef : TypeRef → List Node
  | .named _ => []
  | .list _ inner => [type inner]
  | .nonNull _ inner => [type inner]

def ofDefinition : Definition → List Node
  | .operation d =>
      d.variableDefinitions.map variableDefinition ++ d.directives.map directive ++
        [selectionSet d.selectionSet]
  | .fragment d =>
      type (.named d.typeCondition) :: d.directives.map directive ++
        [selectionSet d.selectionSet]
  | .schema d => d.directives.map directive ++ d.rootTypes.map rootType
  | .scalar d => d.directives.map directive
  | .object d | .interface d =>
      d.interfaces.map (fun t => type (.named t)) ++ d.directives.map directive ++
        d.fields.map fieldDefinition
  | .union d => d.directives.map directive ++ d.members.map fun t => type (.named t)
  | .enum d => d.directives.map directive ++ d.values.map enumValue
  | .input d => d.directives.map directive ++ d.fields.map inputValue
  | .directive d => d.arguments.map inputValue

def children : Node → List Node
  | document d => d.definitions.map definition
  | definition d => ofDefinition d
  | variableDefinition d => type d.type :: (d.default?.map value).toList
  | selectionSet s => s.selections.map selection
  | selection s => ofSelection s
  | argument a => [value a.value]
  | value v => ofValue v.form
  | objectField f => [value f.value]
  | directive d => d.arguments.map argument
  | type t => ofTypeRef t
  | rootType d => [type (.named d.type)]
  | fieldDefinition d =>
      d.arguments.map inputValue ++ type d.type :: d.directives.map directive
  | inputValue d =>
      type d.type :: (d.default?.map value).toList ++ d.directives.map directive
  | enumValue d => d.directives.map directive

end Children

end Node
end GraphQL
