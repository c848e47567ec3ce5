import GraphQL.Document.Basic
import GraphQL.Schema.Named
import GraphQL.Schema.TypeExpr

/-! What a schema is made of: types with their fields, members and values, and
directives. Each thing knows where it comes from. -/
namespace GraphQL

section Parts

/-- A parameter of a field or a directive, or a field of an input object. -/
structure InputValue where
  origin : Origin
  name : String
  type : TypeExpr
  default? : Option Value
deriving BEq

instance : Named InputValue := ⟨InputValue.name⟩

structure OutputField where
  origin : Origin
  description? : Option String
  name : String
  parameters : List InputValue
  type : TypeExpr

instance : Named OutputField := ⟨OutputField.name⟩

structure EnumValue where
  origin : Origin
  name : String
deriving BEq

instance : Named EnumValue := ⟨EnumValue.name⟩

structure DirectiveRule where
  origin : Origin
  description? : Option String
  name : String
  parameters : List InputValue
  repeatable : Bool
  locations : List String

instance : Named DirectiveRule := ⟨DirectiveRule.name⟩

end Parts

section Types

inductive BuiltinScalar where
  | boolean
  | float
  | id
  | int
  | string
deriving DecidableEq

def BuiltinScalar.name : BuiltinScalar → String
  | boolean => "Boolean"
  | float => "Float"
  | id => "ID"
  | int => "Int"
  | string => "String"

structure ScalarType where
  origin : Origin
  description? : Option String
  name : String
deriving BEq

/-- An object type or an interface type. -/
structure FieldsType where
  origin : Origin
  description? : Option String
  name : String
  interfaces : List String
  fields : List OutputField

structure UnionType where
  origin : Origin
  description? : Option String
  name : String
  members : List String

structure EnumType where
  origin : Origin
  description? : Option String
  name : String
  values : List EnumValue

structure InputObjectType where
  origin : Origin
  description? : Option String
  name : String
  fields : List InputValue

inductive SchemaType where
  | builtin (scalar : BuiltinScalar)
  | scalar (type : ScalarType)
  | object (type : FieldsType)
  | interface (type : FieldsType)
  | union (type : UnionType)
  | enum (type : EnumType)
  | input (type : InputObjectType)

namespace SchemaType

def name : SchemaType → String
  | builtin s => s.name
  | scalar t => t.name
  | object t => t.name
  | interface t => t.name
  | union t => t.name
  | enum t => t.name
  | input t => t.name

instance : Named SchemaType := ⟨name⟩

def origin : SchemaType → Origin
  | builtin _ => .builtin
  | scalar t => t.origin
  | object t => t.origin
  | interface t => t.origin
  | union t => t.origin
  | enum t => t.origin
  | input t => t.origin

def object? : SchemaType → Option FieldsType
  | object t => some t
  | _ => none

def interface? : SchemaType → Option FieldsType
  | interface t => some t
  | _ => none

def fields : SchemaType → List OutputField
  | object t => t.fields
  | interface t => t.fields
  | _ => []

def isAbstract : SchemaType → Bool
  | interface _ | union _ => true
  | _ => false

/-- Types whose fields can be selected. -/
def isComposite : SchemaType → Bool
  | object _ | interface _ | union _ => true
  | _ => false

/-- Types of arguments, variables and fields of input objects. -/
def isInput (type : SchemaType) : Bool := !type.isComposite

/-- Types of which nothing can be selected. -/
def isLeaf : SchemaType → Bool
  | builtin _ | scalar _ | enum _ => true
  | _ => false

/-- Types of fields. -/
def isOutput : SchemaType → Bool
  | input _ => false
  | _ => true

end SchemaType

end Types

section Kinds

inductive TypeKind where
  | builtin (scalar : BuiltinScalar)
  | scalar
  | object
  | interface
  | union
  | enum
  | input
deriving DecidableEq

def SchemaType.kind : SchemaType → TypeKind
  | builtin s => .builtin s
  | scalar _ => .scalar
  | object _ => .object
  | interface _ => .interface
  | union _ => .union
  | enum _ => .enum
  | input _ => .input

namespace TypeKind

def name : TypeKind → String
  | builtin s => s.name
  | scalar => "Scalar"
  | object => "Object"
  | interface => "Interface"
  | union => "Union"
  | enum => "Enum"
  | input => "InputObject"

/-- The word for a kind in reports, which shortens `Boolean`. -/
def word : TypeKind → String
  | builtin .boolean => "Bool"
  | kind => kind.name

end TypeKind
end Kinds

section Definitions

def InputValue.ofDefinition (d : InputValueDefinition) : InputValue :=
  ⟨.written d.position, d.name, .ofRef d.type, d.default?⟩

/-- Of parameters with one name the last counts. -/
def parametersOf (definitions : List InputValueDefinition) : List InputValue :=
  Named.ofList (definitions.map InputValue.ofDefinition)

def OutputField.ofDefinition (d : FieldDefinition) : OutputField :=
  ⟨.written d.position, d.description?, d.name, parametersOf d.arguments, .ofRef d.type⟩

def EnumValue.ofDefinition (d : EnumValueDefinition) : EnumValue :=
  ⟨.written d.position, d.name⟩

def EnumType.ofDefinition (d : EnumDefinition) : EnumType :=
  ⟨.written d.position, d.description?, d.name,
    Named.ofList (d.values.map EnumValue.ofDefinition)⟩

def ScalarType.ofDefinition (d : ScalarDefinition) : ScalarType :=
  ⟨.written d.position, d.description?, d.name⟩

def DirectiveRule.ofDefinition (d : DirectiveDefinition) : DirectiveRule :=
  ⟨.written d.position, d.description?, d.name, parametersOf d.arguments, d.repeatable,
    d.locations⟩

end Definitions

section Builtins

def builtinTypes : List SchemaType :=
  [.builtin .boolean, .builtin .float, .builtin .id, .builtin .int, .builtin .string]

/-- The field that every composite type has without defining it. -/
def typenameField : OutputField :=
  ⟨.builtin, some "The name of the current Object type at runtime.", "__typename", [],
    .named "String" false⟩

def builtinRule (name : String) (parameter : String) (type : TypeExpr)
    (locations : List String) : DirectiveRule :=
  ⟨.builtin, none, name, [⟨.builtin, parameter, type, none⟩], false, locations⟩

def selectionLocations : List String := ["FIELD", "FRAGMENT_SPREAD", "INLINE_FRAGMENT"]

def builtinRules : List DirectiveRule :=
  [builtinRule "skip" "if" (.named "Boolean" false) selectionLocations,
   builtinRule "include" "if" (.named "Boolean" false) selectionLocations,
   builtinRule "deprecated" "reason" (.named "String" true)
     ["FIELD_DEFINITION", "ARGUMENT_DEFINITION", "INPUT_FIELD_DEFINITION", "ENUM_VALUE"],
   builtinRule "specifiedBy" "url" (.named "String" false) ["SCALAR"]]

end Builtins

end GraphQL
