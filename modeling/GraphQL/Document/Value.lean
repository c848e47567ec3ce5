import GraphQL.Text.Double
import GraphQL.Text.Position

/-! Values and references to types, the leaves of a document. An argument, a value and
the field of an object value stand at the place of the node they are written for. -/
namespace GraphQL

mutual

structure Value where
  position : Position
  form : ValueForm

inductive ValueForm where
  | reference (name : String)
  | whole (value : Int)
  | double (value : Double)
  | string (value : String)
  | boolean (value : Bool)
  | null
  | enumeration (name : String)
  | list (items : List Value)
  | object (fields : List ObjectField)

structure ObjectField where
  position : Position
  name : String
  value : Value

end

section Equality

mutual

def Value.same : Value → Value → Bool
  | ⟨place, form⟩, ⟨place', form'⟩ => place == place' && form.same form'

def ValueForm.same : ValueForm → ValueForm → Bool
  | .reference name, .reference name' => name == name'
  | .whole value, .whole value' => value == value'
  | .double value, .double value' => value == value'
  | .string value, .string value' => value == value'
  | .boolean value, .boolean value' => value == value'
  | .null, .null => true
  | .enumeration name, .enumeration name' => name == name'
  | .list items, .list items' => sameItems items items'
  | .object fields, .object fields' => sameFields fields fields'
  | _, _ => false

def sameItems : List Value → List Value → Bool
  | [], [] => true
  | item :: rest, item' :: rest' => item.same item' && sameItems rest rest'
  | _, _ => false

def ObjectField.same : ObjectField → ObjectField → Bool
  | ⟨place, name, value⟩, ⟨place', name', value'⟩ =>
      place == place' && name == name' && value.same value'

def sameFields : List ObjectField → List ObjectField → Bool
  | [], [] => true
  | field :: rest, field' :: rest' => field.same field' && sameFields rest rest'
  | _, _ => false

end

instance : BEq Value := ⟨Value.same⟩
instance : BEq ObjectField := ⟨ObjectField.same⟩

end Equality

section Numbers

mutual

/-- All doubles in the value are numbers. -/
def Value.isNumeric : Value → Bool
  | ⟨_, form⟩ => form.isNumeric

def ValueForm.isNumeric : ValueForm → Bool
  | .double value => value.isNumber
  | .list items => numericItems items
  | .object fields => numericFields fields
  | _ => true

def numericItems : List Value → Bool
  | [] => true
  | item :: rest => item.isNumeric && numericItems rest

def ObjectField.isNumeric : ObjectField → Bool
  | ⟨_, _, value⟩ => value.isNumeric

def numericFields : List ObjectField → Bool
  | [] => true
  | field :: rest => field.isNumeric && numericFields rest

end

end Numbers

section TypeReferences

structure NamedType where
  position : Position
  name : String
deriving DecidableEq

inductive TypeRef where
  | named (type : NamedType)
  | list (position : Position) (inner : TypeRef)
  | nonNull (position : Position) (inner : TypeRef)
deriving DecidableEq

namespace TypeRef

def position : TypeRef → Position
  | named type => type.position
  | list place _ => place
  | nonNull place _ => place

def innermost : TypeRef → NamedType
  | named type => type
  | list _ inner => inner.innermost
  | nonNull _ inner => inner.innermost

def text : TypeRef → String
  | named type => type.name
  | list _ inner => "[" ++ inner.text ++ "]"
  | nonNull _ inner => inner.text ++ "!"

end TypeRef
end TypeReferences

end GraphQL
