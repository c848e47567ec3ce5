import GraphQL.Text.Position
import GraphQL.Text.Quoted

/-! Records written out over several lines for developers: every field and every item on
a line of its own with a comma after it, four blanks deeper than what it belongs to. -/
namespace GraphQL

inductive Outline where
  | word (text : String)
  | wrapped (name : String) (inner : Outline)
  | record (name : String) (fields : List (String × Outline))
  | list (items : List Outline)

namespace Outline

def margin (depth : Nat) : String := String.ofList (List.replicate (4 * depth) ' ')

/-- One line of a body, from its margin to its comma. -/
def line (depth : Nat) (text : String) : String := margin depth ++ text ++ ",\n"

mutual

def textAt (depth : Nat) : Outline → String
  | word text => text
  | wrapped name inner =>
      name ++ "(\n" ++ line (depth + 1) (inner.textAt (depth + 1)) ++ margin depth ++ ")"
  | record name fields => name ++ " \x7b\n" ++ fieldsAt (depth + 1) fields ++ margin depth ++ "\x7d"
  | list [] => "[]"
  | list items => "[\n" ++ itemsAt (depth + 1) items ++ margin depth ++ "]"

def fieldsAt (depth : Nat) : List (String × Outline) → String
  | [] => ""
  | (name, value) :: rest => line depth (name ++ ": " ++ value.textAt depth) ++ fieldsAt depth rest

def itemsAt (depth : Nat) : List Outline → String
  | [] => ""
  | item :: rest => line depth (item.textAt depth) ++ itemsAt depth rest

end

def text (outline : Outline) : String := outline.textAt 0

def ofName (name : String) : Outline := word (Quoted.quote name)

def ofPosition (place : Position) : Outline :=
  record "SourcePosition"
    [("line", word (toString place.line)), ("column", word (toString place.column))]

def ofOrigin : Origin → Outline
  | .builtin => word "GraphQLBuiltIn"
  | .written place => wrapped "Schema" (ofPosition place)

end Outline
end GraphQL
