import GraphQL.Document.Basic
import GraphQL.Grammar.Parser

/-! Values, arguments, directives and references to types, which both kinds of
documents share. Every parser is told how many brackets may still be opened. -/
namespace GraphQL.Grammar
open GraphQL.Parser

section Values

/-- The fields of an object value are kept by name; the last of one name counts. -/
def insertField (field : ObjectField) : List ObjectField → List ObjectField
  | [] => [field]
  | first :: rest =>
      if field.name < first.name then field :: first :: rest
      else if field.name == first.name then field :: rest
      else first :: insertField field rest

def sortFields (fields : List ObjectField) : List ObjectField :=
  fields.foldl (fun sorted field => insertField field sorted) []

def wordValue : String → ValueForm
  | "true" => .boolean true
  | "false" => .boolean false
  | "null" => .null
  | word => .enumeration word

/-- A value without brackets. A constant does not refer to variables. -/
def leafValue (constant : Bool) (place : Position) : Parser Value := do
  match ← peek with
  | .punct '$' =>
      if constant then fail
      skip
      return ⟨place, .reference (← name)⟩
  | .number (.whole value) => skip; return ⟨place, .whole value⟩
  | .number (.double value) => skip; return ⟨place, .double value⟩
  | .string value => skip; return ⟨place, .string value⟩
  | .name word => skip; return ⟨place, wordValue word⟩
  | _ => fail

def objectField (place : Position) (value : Parser Value) : Parser ObjectField := do
  let key ← name
  punct ':'
  return ⟨place, key, ← value⟩

def value (constant : Bool) (place : Position) : Nat → Parser Value
  | 0 => leafValue constant place
  | room + 1 => do
      if ← accept '[' then
        return ⟨place, .list (← itemsUntil ']' (value constant place room))⟩
      if ← accept '{' then
        let fields ← itemsUntil '}' (objectField place (value constant place room))
        return ⟨place, .object (sortFields fields)⟩
      leafValue constant place

end Values

section Directives

def argument (place : Position) (room : Nat) : Parser Argument := do
  let key ← name
  punct ':'
  return ⟨place, key, ← value false place room⟩

def arguments (place : Position) (room : Nat) : Parser (List Argument) :=
  optionalGroup '(' ')' (argument place) room

def directive (room : Nat) : Parser Directive := do
  let place ← place
  punct '@'
  let called ← name
  return ⟨place, called, ← arguments place room⟩

def directives (room : Nat) : Parser (List Directive) :=
  itemsWhile '@' (directive room)

end Directives

section Types

def namedType : Parser NamedType := do
  let place ← place
  return ⟨place, ← name⟩

def nonNull (type : TypeRef) : Parser TypeRef := do
  if ← accept '!' then return .nonNull type.position type else return type

def typeRef : Nat → Parser TypeRef
  | 0 => do nonNull (.named (← namedType))
  | room + 1 => do
      let place ← place
      if ← accept '[' then
        let inner ← typeRef room
        punct ']'
        nonNull (.list place inner)
      else nonNull (.named (← namedType))

def default? (place : Position) (room : Nat) : Parser (Option Value) := do
  if ← accept '=' then return some (← value true place room) else return none

end Types

end GraphQL.Grammar
