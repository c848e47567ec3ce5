/-! The kinds of nodes that a document is made of. Visitors ask for nodes by kind. -/
namespace GraphQL

inductive NodeKind where
  | document
  | operationDefinition
  | variableDefinition
  | selectionSet
  | field
  | argument
  | fragmentSpread
  | inlineFragment
  | fragmentDefinition
  | reference
  | intValue
  | floatValue
  | stringValue
  | booleanValue
  | nullValue
  | enumValue
  | listValue
  | objectValue
  | objectField
  | directive
  | namedType
  | listType
  | nonNullType
  | schemaDefinition
  | operationTypeDefinition
  | scalarTypeDefinition
  | objectTypeDefinition
  | fieldDefinition
  | inputValueDefinition
  | interfaceTypeDefinition
  | unionTypeDefinition
  | enumTypeDefinition
  | enumValueDefinition
  | inputObjectTypeDefinition
  | directiveDefinition
deriving DecidableEq

namespace NodeKind

def all : List NodeKind :=
  [document, operationDefinition, variableDefinition, selectionSet, field, argument,
   fragmentSpread, inlineFragment, fragmentDefinition, reference, intValue, floatValue,
   stringValue, booleanValue, nullValue, enumValue, listValue, objectValue, objectField,
   directive, namedType, listType, nonNullType, schemaDefinition, operationTypeDefinition,
   scalarTypeDefinition, objectTypeDefinition, fieldDefinition, inputValueDefinition,
   interfaceTypeDefinition, unionTypeDefinition, enumTypeDefinition, enumValueDefinition,
   inputObjectTypeDefinition, directiveDefinition]

theorem mem_all (kind : NodeKind) : kind ∈ all := by cases kind <;> decide

def name : NodeKind → String
  | document => "Document"
  | operationDefinition => "OperationDefinition"
  | variableDefinition => "VariableDefinition"
  | selectionSet => "SelectionSet"
  | field => "Field"
  | argument => "Argument"
  | fragmentSpread => "FragmentSpread"
  | inlineFragment => "InlineFragment"
  | fragmentDefinition => "FragmentDefinition"
  | reference => "Variable"
  | intValue => "IntValue"
  | floatValue => "FloatValue"
  | stringValue => "StringValue"
  | booleanValue => "BooleanValue"
  | nullValue => "NullValue"
  | enumValue => "EnumValue"
  | listValue => "ListValue"
  | objectValue => "ObjectValue"
  | objectField => "ObjectField"
  | directive => "Directive"
  | namedType => "NamedType"
  | listType => "ListType"
  | nonNullType => "NonNullType"
  | schemaDefinition => "SchemaDefinition"
  | operationTypeDefinition => "OperationTypeDefinition"
  | scalarTypeDefinition => "ScalarTypeDefinition"
  | objectTypeDefinition => "ObjectTypeDefinition"
  | fieldDefinition => "FieldDefinition"
  | inputValueDefinition => "InputValueDefinition"
  | interfaceTypeDefinition => "InterfaceTypeDefinition"
  | unionTypeDefinition => "UnionTypeDefinition"
  | enumTypeDefinition => "EnumTypeDefinition"
  | enumValueDefinition => "EnumValueDefinition"
  | inputObjectTypeDefinition => "InputObjectTypeDefinition"
  | directiveDefinition => "DirectiveDefinition"

end NodeKind
end GraphQL
