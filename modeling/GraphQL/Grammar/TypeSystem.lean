import GraphQL.Grammar.Values

/-! Definitions of a type system. A definition stands at its keyword, after its
description; a field, an input value and an enum value stand at their description if
they have one. Extensions are read, so that one that does not parse is found, but there
is no place for them in a document. -/
namespace GraphQL.Grammar
open GraphQL.Parser

inductive TypeSystemItem where
  | definition (definition : Definition)
  | extension (place : Position)

section Fields

def inputValue (room : Nat) : Parser InputValueDefinition := do
  let place ← place
  let description ← string?
  let called ← name
  punct ':'
  let type ← typeRef room
  let default ← default? place room
  return ⟨place, description, called, type, default, ← directives room⟩

def fieldDefinition (room : Nat) : Parser FieldDefinition := do
  let place ← place
  let description ← string?
  let called ← name
  let arguments ← optionalGroup '(' ')' inputValue room
  punct ':'
  let type ← typeRef room
  return ⟨place, description, called, arguments, type, ← directives room⟩

def enumValue (room : Nat) : Parser EnumValueDefinition := do
  let place ← place
  let description ← string?
  let called ← name
  return ⟨place, description, called, ← directives room⟩

def interfaces : Parser (List NamedType) := do
  unless ← acceptWord "implements" do return []
  let _ ← accept '&'
  separated '&' namedType

def members : Parser (List NamedType) := do
  unless ← accept '=' do return []
  let _ ← accept '|'
  separated '|' namedType

end Fields

section Types

def fieldsDefinition (place : Position) (description : Option String) :
    Parser FieldsDefinition := do
  let called ← name
  let interfaces ← interfaces
  let directives ← directives nesting
  return ⟨place, description, called, interfaces, directives,
    ← optionalGroup '{' '}' fieldDefinition nesting⟩

def typeDefinition (description : Option String) : Parser Definition := do
  let place ← place
  match ← peek with
  | .name "scalar" =>
      skip
      let called ← name
      return .scalar ⟨place, description, called, ← directives nesting⟩
  | .name "type" => skip; return .object (← fieldsDefinition place description)
  | .name "interface" => skip; return .interface (← fieldsDefinition place description)
  | .name "union" =>
      skip
      let called ← name
      let directives ← directives nesting
      return .union ⟨place, description, called, directives, ← members⟩
  | .name "enum" =>
      skip
      let called ← name
      let directives ← directives nesting
      return .enum ⟨place, description, called, directives,
        ← optionalGroup '{' '}' enumValue nesting⟩
  | .name "input" =>
      skip
      let called ← name
      let directives ← directives nesting
      return .input ⟨place, description, called, directives,
        ← optionalGroup '{' '}' inputValue nesting⟩
  | _ => fail

/-- Whether an extension adds anything. Interfaces that an interface implements do not
count. -/
def addsContent : Definition → Bool
  | .scalar d => !d.directives.isEmpty
  | .object d => !(d.interfaces.isEmpty && d.directives.isEmpty && d.fields.isEmpty)
  | .interface d => !(d.directives.isEmpty && d.fields.isEmpty)
  | .union d => !(d.directives.isEmpty && d.members.isEmpty)
  | .enum d => !(d.directives.isEmpty && d.values.isEmpty)
  | .input d => !(d.directives.isEmpty && d.fields.isEmpty)
  | _ => false

def extension : Parser TypeSystemItem := do
  let place ← place
  let content ← typeDefinition none
  if addsContent content then return .extension place else throw place

end Types

section Directives

def directiveLocations : List String :=
  ["QUERY", "MUTATION", "SUBSCRIPTION", "FIELD", "FRAGMENT_DEFINITION", "FRAGMENT_SPREAD",
   "INLINE_FRAGMENT", "SCHEMA", "SCALAR", "OBJECT", "FIELD_DEFINITION", "ARGUMENT_DEFINITION",
   "INTERFACE", "UNION", "ENUM", "ENUM_VALUE", "INPUT_OBJECT", "INPUT_FIELD_DEFINITION",
   "VARIABLE_DEFINITION"]

def location : Parser String := do
  let place ← place
  let called ← name
  if directiveLocations.contains called then return called else throw place

/-- Locations may be left out, but a name after `on` is one. -/
def locations : Parser (List String) := do
  if ← accept '|' then return ← separated '|' location
  match ← peek with
  | .name _ => separated '|' location
  | _ => return []

def directiveDefinition (description : Option String) : Parser Definition := do
  let place ← place
  keyword "directive"
  punct '@'
  let called ← name
  let arguments ← optionalGroup '(' ')' inputValue nesting
  let repeatable ← acceptWord "repeatable"
  keyword "on"
  return .directive ⟨place, description, called, arguments, repeatable, ← locations⟩

end Directives

section Schemas

def rootEntry : Parser (String × NamedType) := do
  let operation ← name
  punct ':'
  return (operation, ← namedType)

def entriesOf (kind : OperationKind) (entries : List (String × NamedType)) : List NamedType :=
  (entries.filter fun entry => entry.1 == kind.name).map Prod.snd

def isRootEntry (entry : String × NamedType) : Bool :=
  OperationKind.all.any fun kind => entry.1 == kind.name

/-- Each kind of operation is named at most once, and nothing else is. -/
def entriesFit (entries : List (String × NamedType)) : Bool :=
  entries.all isRootEntry &&
    OperationKind.all.all fun kind => (entriesOf kind entries).length ≤ 1

def rootTypes (place : Position) (entries : List (String × NamedType)) :
    List RootTypeDefinition :=
  OperationKind.all.flatMap fun kind => (entriesOf kind entries).map (⟨place, kind, ·⟩)

def schemaDefinition : Parser Definition := do
  let place ← place
  keyword "schema"
  let directives ← directives nesting
  punct '{'
  let entries ← itemsUntil '}' rootEntry
  if entriesFit entries then return .schema ⟨place, directives, rootTypes place entries⟩
  else throw place

end Schemas

def typeSystemItem : Parser TypeSystemItem := do
  match ← peek with
  | .name "schema" => return .definition (← schemaDefinition)
  | .name "extend" => skip; extension
  | _ =>
      let description ← string?
      if ← atWord "directive" then return .definition (← directiveDefinition description)
      return .definition (← typeDefinition description)

def typeSystemDocument : Parser (List TypeSystemItem) := someToEnd typeSystemItem

end GraphQL.Grammar
