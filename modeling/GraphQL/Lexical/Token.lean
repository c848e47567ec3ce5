import GraphQL.Text.Number
import GraphQL.Text.Position

/-! Tokens. A text that is no token, and a literal that denotes nothing, is `invalid`
and ends the text like `finish` does, except that no document goes on with it. -/
namespace GraphQL

inductive Token where
  | punct (c : Char)
  | spread
  | name (word : String)
  | number (value : Number)
  | string (value : String)
  | invalid
  | finish

structure Lexeme where
  token : Token
  place : Position

end GraphQL
