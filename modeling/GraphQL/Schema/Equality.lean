import GraphQL.Schema.Basic

/-! When two schemas are equal. The order of types, fields, parameters, values, members
and directives does not count; the order of interfaces and of locations does, and so do
places and descriptions. -/
namespace GraphQL

def sameNames (names names' : List String) : Bool :=
  names.length == names'.length && names.all names'.contains

def sameParameters (parameters parameters' : List InputValue) : Bool :=
  Named.sameAs (· == ·) parameters parameters'

def OutputField.same (a b : OutputField) : Bool :=
  a.origin == b.origin && a.description? == b.description? && a.name == b.name &&
    sameParameters a.parameters b.parameters && a.type == b.type

def DirectiveRule.same (a b : DirectiveRule) : Bool :=
  a.origin == b.origin && a.description? == b.description? && a.name == b.name &&
    sameParameters a.parameters b.parameters && a.repeatable == b.repeatable &&
    a.locations == b.locations

def FieldsType.same (a b : FieldsType) : Bool :=
  a.origin == b.origin && a.description? == b.description? && a.name == b.name &&
    a.interfaces == b.interfaces && Named.sameAs OutputField.same a.fields b.fields

def UnionType.same (a b : UnionType) : Bool :=
  a.origin == b.origin && a.description? == b.description? && a.name == b.name &&
    sameNames a.members b.members

def EnumType.same (a b : EnumType) : Bool :=
  a.origin == b.origin && a.description? == b.description? && a.name == b.name &&
    Named.sameAs (· == ·) a.values b.values

def InputObjectType.same (a b : InputObjectType) : Bool :=
  a.origin == b.origin && a.description? == b.description? && a.name == b.name &&
    sameParameters a.fields b.fields

def SchemaType.same : SchemaType → SchemaType → Bool
  | .builtin a, .builtin b => a == b
  | .scalar a, .scalar b => a == b
  | .object a, .object b => a.same b
  | .interface a, .interface b => a.same b
  | .union a, .union b => a.same b
  | .enum a, .enum b => a.same b
  | .input a, .input b => a.same b
  | _, _ => false

def Possible.same (a b : Possible) : Bool := a.name == b.name && sameNames a.objects b.objects

def Schema.same (a b : Schema) : Bool :=
  Named.sameAs SchemaType.same a.types b.types &&
    Named.sameAs DirectiveRule.same a.directives b.directives &&
    Named.sameAs Possible.same a.possible b.possible && a.query == b.query &&
    a.mutation? == b.mutation? && a.subscription? == b.subscription?

end GraphQL
