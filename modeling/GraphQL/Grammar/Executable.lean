import GraphQL.Grammar.Values

/-! Operations and fragments. An inline fragment and a fragment spread stand at the
token after their three dots, all else at its first token. -/
namespace GraphQL.Grammar
open GraphQL.Parser

section Selections

def field (nested : Parser SelectionSet) (room : Nat) : Parser Field := do
  let place ← place
  let first ← name
  let renamed ← accept ':'
  let called ← if renamed then name else pure first
  let arguments ← arguments place room
  let directives ← directives room
  let selections ← if ← atPunct '{' then some <$> nested else pure none
  let alias? := if renamed then some first else none
  return ⟨place, alias?, called, arguments, directives, selections⟩

def inlineFragment (nested : Parser SelectionSet) (room : Nat) (place : Position)
    (condition : Option NamedType) : Parser Selection := do
  let directives ← directives room
  return .inline ⟨place, condition, directives, ← nested⟩

def afterDots (nested : Parser SelectionSet) (room : Nat) : Parser Selection := do
  let place ← place
  match ← name? with
  | some "on" => inlineFragment nested room place (some (← namedType))
  | some called => return .spread ⟨place, called, ← directives room⟩
  | none => inlineFragment nested room place none

def selection (nested : Parser SelectionSet) (room : Nat) : Parser Selection := do
  match ← peek with
  | .spread => skip; afterDots nested room
  | _ => return .field (← field nested room)

def selectionSet : Nat → Parser SelectionSet
  | 0 => fail
  | room + 1 => do
      let place ← place
      punct '{'
      return ⟨place, ← someUntil '}' (selection (selectionSet room) room)⟩

end Selections

section Definitions

def variableDefinition (room : Nat) : Parser VariableDefinition := do
  let place ← place
  punct '$'
  let called ← name
  punct ':'
  let type ← typeRef room
  return ⟨place, called, type, ← default? place room⟩

def operation (place : Position) (kind : OperationKind) : Parser Definition := do
  let called ← name?
  let variableDefinitions ← optionalGroup '(' ')' variableDefinition nesting
  let directives ← directives nesting
  let selections ← selectionSet nesting
  return .operation ⟨place, kind, called, variableDefinitions, directives, selections⟩

def fragment (place : Position) : Parser Definition := do
  let called ← name
  keyword "on"
  let condition ← namedType
  let directives ← directives nesting
  return .fragment ⟨place, called, condition, directives, ← selectionSet nesting⟩

def executable : Parser Definition := do
  let place ← place
  match ← peek with
  | .punct '{' => return .operation ⟨place, .query, none, [], [], ← selectionSet nesting⟩
  | .name "query" => skip; operation place .query
  | .name "mutation" => skip; operation place .mutation
  | .name "subscription" => skip; operation place .subscription
  | .name "fragment" => skip; fragment place
  | _ => fail

def executableDocument : Parser Document := return ⟨← someToEnd executable⟩

end Definitions

end GraphQL.Grammar
