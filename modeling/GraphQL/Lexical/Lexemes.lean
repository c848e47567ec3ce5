import GraphQL.Lexical.Token
import GraphQL.Text.Ruler
import GraphQL.Text.StringValue

/-! The tokens of a text with their places. Inside of a token every character takes one
column and a line feed starts a line; a comment counts as one line end, whichever
character ends it. -/
namespace GraphQL.Lexeme
open Text

def isPunct (c : Char) : Bool :=
  "()[]\x7b\x7d!$:=@|&".toList.contains c

def passed (text rest : List Char) : List Char := text.take (text.length - rest.length)

def ofNumber (word : List Char) : Token :=
  match Number.ofWord? word with
  | some value => .number value
  | none => .invalid

def ofQuoted (content : List Char) : Token :=
  match StringValue.ofQuoted? content with
  | some value => .string (String.ofList value)
  | none => .invalid

def ofBlock (content : List Char) : Token :=
  .string (String.ofList (StringValue.ofBlock content))

/-- The string that follows an opening quote, and the text after it. -/
def readString : List Char → Token × List Char
  | '"' :: '"' :: text =>
      match StringValue.afterBlock? false text with
      | some rest => (ofBlock ((passed text rest).dropLast.dropLast.dropLast), rest)
      | none => (.invalid, [])
  | text =>
      match StringValue.afterQuoted? false text with
      | some rest => (ofQuoted (passed text rest).dropLast, rest)
      | none => (.invalid, [])

/-- The token that starts with a character, and the text after it. -/
def read (c : Char) (rest : List Char) : Token × List Char :=
  if isPunct c then (.punct c, rest)
  else if c == '.' then
    match rest with
    | '.' :: '.' :: next => (.spread, next)
    | _ => (.invalid, rest)
  else if isNameStart c then
    (.name (String.ofList (c :: rest.takeWhile isNamePart)), rest.dropWhile isNamePart)
  else if c == '-' || c.isDigit then
    (ofNumber (c :: rest.takeWhile fun d => !Number.endsNumber d),
      rest.dropWhile fun d => !Number.endsNumber d)
  else if c == '"' then readString rest
  else (.invalid, rest)

theorem read_string_length (text : List Char) : (readString text).2.length ≤ text.length := by
  unfold readString
  split
  · split
    · next h => exact Nat.le_trans (StringValue.after_block_length _ _ _ h) (by simp; omega)
    · simp
  · split
    · next h => exact StringValue.after_quoted_length _ _ _ h
    · simp

theorem read_length (c : Char) (rest : List Char) : (read c rest).2.length ≤ rest.length := by
  unfold read
  split
  · exact Nat.le_refl _
  split
  · split
    · exact Nat.le_add_right _ 2
    · exact Nat.le_refl _
  split
  · exact (List.dropWhile_sublist _).length_le
  split
  · exact (List.dropWhile_sublist _).length_le
  split
  · exact read_string_length rest
  · exact Nat.le_refl _

def nextInToken (place : Position) (c : Char) : Position :=
  if c == '\n' then ⟨place.line + 1, 1⟩ else ⟨place.line, place.column + 1⟩

def afterToken (place : Position) (token : List Char) : Position :=
  token.foldl nextInToken place

def ofText (place : Position) : List Char → List Lexeme
  | [] => [⟨.finish, place⟩]
  | c :: rest =>
      if isIgnored c then ofText (Ruler.next place c) rest
      else if c == '#' then
        match _h : rest.dropWhile fun d => !isLineEnd d with
        | [] => [⟨.finish, place⟩]
        | _ :: next => ofText ⟨place.line + 1, 1⟩ next
      else
        match _h : read c rest with
        | (.invalid, _) => [⟨.invalid, place⟩]
        | (token, next) =>
            ⟨token, place⟩ :: ofText (afterToken place (passed (c :: rest) next)) next
termination_by text => text.length
decreasing_by
  · exact Nat.lt_succ_self rest.length
  · have shorter := (List.dropWhile_sublist (fun d => !isLineEnd d) (l := rest)).length_le
    rw [_h] at shorter
    simp only [List.length_cons] at shorter ⊢
    omega
  · have shorter := read_length c rest
    rw [_h] at shorter
    exact Nat.lt_succ_of_le shorter

end GraphQL.Lexeme
