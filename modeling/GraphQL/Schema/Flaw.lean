import GraphQL.Schema.Basic
import GraphQL.Text.Outline

/-! Flaws: how the types of a schema can fail to fit together. All of them are found,
not only the first. -/
namespace GraphQL

inductive TypeFlaw where
  | notAnInterface (type interface : String) (origin : Origin)
  | undefinedInterface (type interface : String) (origin : Origin)
  | outputTypeOfInputField (parent field type : String) (origin : Origin)
  | inputTypeOfField (parent field type : String) (origin : Origin)
  | outputTypeOfParameter (owner parameter type : String) (origin : Origin)
  | memberNotAnObject (union member : String) (kind : TypeKind) (origin : Origin)
  | missingField (type interface field : String) (origin : Origin)
  | undefinedType (name : String) (origin : Origin)
deriving DecidableEq

namespace TypeFlaw

def origin : TypeFlaw → Origin
  | notAnInterface _ _ origin => origin
  | undefinedInterface _ _ origin => origin
  | outputTypeOfInputField _ _ _ origin => origin
  | inputTypeOfField _ _ _ origin => origin
  | outputTypeOfParameter _ _ _ origin => origin
  | memberNotAnObject _ _ _ origin => origin
  | missingField _ _ _ origin => origin
  | undefinedType _ origin => origin

def ticked (name : String) : String := "`" ++ name ++ "`"

def message : TypeFlaw → String
  | notAnInterface type interface _ =>
      ticked type ++ " declares that it implements " ++ ticked interface ++ ", but " ++
        ticked interface ++ " is not an interface type"
  | undefinedInterface type interface _ =>
      ticked type ++ " declares that it implements " ++ ticked interface ++
        ", which is not defined in the schema"
  | outputTypeOfInputField parent field type _ =>
      "Input fields can not be declared with a non-input type: The " ++
        ticked (parent ++ "." ++ field) ++ " field is an input field, but the " ++ ticked type ++
        " type is a non-input type."
  | inputTypeOfField parent field type _ =>
      "Output fields can not be declared with an input type: The " ++
        ticked (parent ++ "." ++ field) ++ " field is an output field, but the " ++ ticked type ++
        " type is an input-type"
  | outputTypeOfParameter owner parameter type _ =>
      "Parameters can only be declared with input-compatible types: The " ++ ticked parameter ++
        " parameter of " ++ ticked owner ++ " was declared with the non-input type " ++
        ticked type ++ "."
  | memberNotAnObject union member kind _ =>
      "Union members must be object types, but " ++ ticked union ++ " lists " ++ ticked member ++
        " which is a " ++ kind.word ++ " type"
  | missingField type interface field _ =>
      ticked type ++ " implements " ++ ticked interface ++ " but does not define its " ++
        ticked field ++ " field"
  | undefinedType name _ => "Reference to a type that is not defined: " ++ ticked name

def kindName : TypeFlaw → String
  | notAnInterface _ _ _ => "ImplementsNonInterfaceType"
  | undefinedInterface _ _ _ => "ImplementsUndefinedInterface"
  | outputTypeOfInputField _ _ _ _ => "InvalidInputFieldWithOutputType"
  | inputTypeOfField _ _ _ _ => "InvalidOutputFieldWithInputType"
  | outputTypeOfParameter _ _ _ _ => "InvalidParameterWithOutputType"
  | memberNotAnObject _ _ _ _ => "InvalidUnionMemberTypeKind"
  | missingField _ _ _ _ => "MissingInterfaceField"
  | undefinedType _ _ => "UndefinedTypeName"

section Outlines
open Outline

def details : TypeFlaw → List (String × Outline)
  | notAnInterface type interface origin =>
      [("type_name", ofName type), ("non_interface_type_name", ofName interface),
       ("loc", ofOrigin origin)]
  | undefinedInterface type interface origin =>
      [("type_name", ofName type), ("undefined_interface_name", ofName interface),
       ("loc", ofOrigin origin)]
  | outputTypeOfInputField parent field type origin =>
      [("def_location", ofOrigin origin), ("field_name", ofName field),
       ("invalid_type_name", ofName type), ("parent_type_name", ofName parent)]
  | inputTypeOfField parent field type origin =>
      [("def_location", ofOrigin origin), ("field_name", ofName field),
       ("input_type_name", ofName type), ("parent_type_name", ofName parent)]
  | outputTypeOfParameter owner parameter type origin =>
      [("def_location", ofOrigin origin), ("invalid_type_name", ofName type),
       ("owner_name", ofName owner), ("parameter_name", ofName parameter)]
  | memberNotAnObject union member kind origin =>
      [("def_location", ofOrigin origin), ("invalid_member_type_kind", word kind.word),
       ("invalid_member_type_name", ofName member), ("union_type_name", ofName union)]
  | missingField type interface field origin =>
      [("def_location", ofOrigin origin), ("field_name", ofName field),
       ("interface_name", ofName interface), ("type_name", ofName type)]
  | undefinedType name origin =>
      [("ref_location", ofOrigin origin), ("undefined_type_name", ofName name)]

def outline (flaw : TypeFlaw) : Outline := .record flaw.kindName flaw.details

end Outlines
end TypeFlaw

section Checks

/-- Checks the type at the core of an expression, which must be defined. -/
def typeFlaws (types : List SchemaType) (type : TypeExpr) (origin : Origin)
    (check : SchemaType → List TypeFlaw) : List TypeFlaw :=
  match Named.find? type.innermostName types with
  | none => [.undefinedType type.innermostName origin]
  | some found => check found

def parameterFlaws (types : List SchemaType) (owner : String) (parameter : InputValue) :
    List TypeFlaw :=
  typeFlaws types parameter.type parameter.origin fun type =>
    if type.isInput then []
    else [.outputTypeOfParameter owner parameter.name type.name parameter.origin]

def inputFieldFlaws (types : List SchemaType) (parent : String) (field : InputValue) :
    List TypeFlaw :=
  typeFlaws types field.type field.origin fun type =>
    if type.isInput then []
    else [.outputTypeOfInputField parent field.name type.name field.origin]

def fieldFlaws (types : List SchemaType) (parent : String) (field : OutputField) :
    List TypeFlaw :=
  field.parameters.flatMap (parameterFlaws types (parent ++ "." ++ field.name)) ++
    typeFlaws types field.type field.origin fun type =>
      if type.isOutput then []
      else [.inputTypeOfField parent field.name type.name field.origin]

def missingFields (type interface : FieldsType) : List TypeFlaw :=
  (interface.fields.filter fun field => !Named.has field.name type.fields).map fun field =>
    .missingField type.name interface.name field.name type.origin

/-- Only of object types is it asked that they have the fields of an interface. -/
def interfaceFlaws (types : List SchemaType) (isObject : Bool) (type : FieldsType)
    (interface : String) : List TypeFlaw :=
  match Named.find? interface types with
  | none => [.undefinedInterface type.name interface type.origin]
  | some (.interface found) => if isObject then missingFields type found else []
  | some _ => [.notAnInterface type.name interface type.origin]

def fieldsTypeFlaws (types : List SchemaType) (isObject : Bool) (type : FieldsType) :
    List TypeFlaw :=
  type.fields.flatMap (fieldFlaws types type.name) ++
    type.interfaces.flatMap (interfaceFlaws types isObject type)

def memberFlaws (types : List SchemaType) (type : UnionType) (member : String) :
    List TypeFlaw :=
  match Named.find? member types with
  | none => [.undefinedType member type.origin]
  | some (.object _) => []
  | some found => [.memberNotAnObject type.name member found.kind type.origin]

def SchemaType.flaws (types : List SchemaType) : SchemaType → List TypeFlaw
  | .builtin _ => []
  | .scalar _ => []
  | .enum _ => []
  | .input t => t.fields.flatMap (inputFieldFlaws types t.name)
  | .interface t => fieldsTypeFlaws types false t
  | .object t => fieldsTypeFlaws types true t
  | .union t => t.members.flatMap (memberFlaws types t)

def DirectiveRule.flaws (types : List SchemaType) (rule : DirectiveRule) : List TypeFlaw :=
  rule.parameters.flatMap (parameterFlaws types ("@" ++ rule.name))

def schemaFlaws (types : List SchemaType) (directives : List DirectiveRule) : List TypeFlaw :=
  types.flatMap (SchemaType.flaws types) ++ directives.flatMap (DirectiveRule.flaws types)

end Checks

end GraphQL
