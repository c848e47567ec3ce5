import GraphQL.Lexical.Token

/-! Reading tokens from left to right. The language needs one token of foresight and
never goes back, so a text that is not in it fails at the first token that cannot
continue. Repetitions are bounded by the number of tokens that are left. -/
namespace GraphQL

abbrev Parser (α : Type) := StateT (List Lexeme) (Except Position) α

namespace Parser
variable {α : Type}

def peek : Parser Token := do
  match ← get with
  | [] => return .finish
  | lexeme :: _ => return lexeme.token

def place : Parser Position := do
  match ← get with
  | [] => return .start
  | lexeme :: _ => return lexeme.place

def fail : Parser α := do throw (← place)

def skip : Parser Unit := modify List.tail

def atPunct (c : Char) : Parser Bool := do
  match ← peek with
  | .punct d => return c == d
  | _ => return false

def atWord (word : String) : Parser Bool := do
  match ← peek with
  | .name found => return found == word
  | _ => return false

def accept (c : Char) : Parser Bool := do
  if ← atPunct c then skip; return true else return false

def acceptWord (word : String) : Parser Bool := do
  if ← atWord word then skip; return true else return false

def punct (c : Char) : Parser Unit := do
  unless ← accept c do fail

def keyword (word : String) : Parser Unit := do
  unless ← acceptWord word do fail

def name : Parser String := do
  match ← peek with
  | .name word => skip; return word
  | _ => fail

def name? : Parser (Option String) := do
  match ← peek with
  | .name word => skip; return some word
  | _ => return none

def string? : Parser (Option String) := do
  match ← peek with
  | .string value => skip; return some value
  | _ => return none

section Repetition

def repeatUntil (close : Char) (item : Parser α) : Nat → Parser (List α)
  | 0 => fail
  | room + 1 => do
      if ← accept close then return []
      let first ← item
      return first :: (← repeatUntil close item room)

def repeatWhile (start : Char) (item : Parser α) : Nat → Parser (List α)
  | 0 => return []
  | room + 1 => do
      unless ← atPunct start do return []
      let first ← item
      return first :: (← repeatWhile start item room)

def repeatToEnd (item : Parser α) : Nat → Parser (List α)
  | 0 => fail
  | room + 1 => do
      match ← peek with
      | .finish => return []
      | _ =>
          let first ← item
          return first :: (← repeatToEnd item room)

/-- Items up to a closing character, which is read as well. -/
def itemsUntil (close : Char) (item : Parser α) : Parser (List α) := do
  repeatUntil close item (← get).length

def someUntil (close : Char) (item : Parser α) : Parser (List α) := do
  let first ← item
  return first :: (← itemsUntil close item)

/-- Items that each start with a character. -/
def itemsWhile (start : Char) (item : Parser α) : Parser (List α) := do
  repeatWhile start item (← get).length

def someToEnd (item : Parser α) : Parser (List α) := do
  let first ← item
  return first :: (← repeatToEnd item (← get).length)

def separated (separator : Char) (item : Parser α) : Parser (List α) := do
  let first ← item
  return first :: (← itemsWhile separator (do punct separator; item))

end Repetition

section Brackets

/-- So many brackets may be open at once. -/
def nesting : Nat := 50

/-- An opening bracket and what follows it, which may open one bracket less. -/
def opening (bracket : Char) (body : Nat → Parser α) : Nat → Parser α
  | 0 => fail
  | room + 1 => do punct bracket; body room

/-- The items of an optional bracket; a bracket that opens holds one or more of them. -/
def optionalGroup (bracket close : Char) (item : Nat → Parser α) (room : Nat) :
    Parser (List α) := do
  if ← atPunct bracket then opening bracket (fun room => someUntil close (item room)) room
  else return []

end Brackets

/-- Reads all of the tokens or fails at a place. -/
def parse (parser : Parser α) (tokens : List Lexeme) : Except Position α :=
  (parser.run tokens).map Prod.fst

end Parser
end GraphQL
