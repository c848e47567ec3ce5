import GraphQL.Text.Characters

/-! String literals: where one ends, and the text that its content denotes. A quoted
string stays on one line and has escapes; a block string loses its common indent and
its blank first and last lines, and knows no escape but that of three quotes. -/
namespace GraphQL.StringValue
open Text

section Extent

/-- Ends a block string at the first three quotes that no backslash precedes. -/
def afterBlock? : Bool → List Char → Option (List Char)
  | escaped, '"' :: '"' :: '"' :: rest => if escaped then afterBlock? false rest else some rest
  | _, c :: rest => afterBlock? (c == '\\') rest
  | _, [] => none

def afterQuoted? : Bool → List Char → Option (List Char)
  | _, [] => none
  | escaped, c :: rest =>
      if c == '"' && !escaped then some rest
      else if c == '\n' then none
      else afterQuoted? (!escaped && c == '\\') rest

/-- Reads on from just after an opening quote. -/
def after? : List Char → Option (List Char)
  | '"' :: '"' :: rest => afterBlock? false rest
  | rest => afterQuoted? false rest

theorem after_block_length (escaped : Bool) (text rest : List Char)
    (h : afterBlock? escaped text = some rest) : rest.length ≤ text.length := by
  fun_induction afterBlock? escaped text with
  | case1 rest' ih => exact Nat.le_trans (ih h) (by simp; omega)
  | case2 rest' => simp_all; omega
  | case3 _ c rest' _ ih => exact Nat.le_succ_of_le (ih h)
  | case4 => simp at h

theorem after_quoted_length (escaped : Bool) (text rest : List Char)
    (h : afterQuoted? escaped text = some rest) : rest.length ≤ text.length := by
  fun_induction afterQuoted? escaped text with
  | case1 => simp at h
  | case2 _ c rest' _ =>
      obtain rfl : rest' = rest := by simpa using h
      exact Nat.le_succ _
  | case3 => simp at h
  | case4 _ c rest' _ _ ih => exact Nat.le_succ_of_le (ih h)

theorem after_length (text rest : List Char)
    (h : after? text = some rest) : rest.length ≤ text.length := by
  unfold after? at h
  split at h
  · exact Nat.le_trans (after_block_length _ _ _ h) (by simp; omega)
  · exact after_quoted_length _ _ _ h

end Extent

section Escapes

def hexDigit? (c : Char) : Option Nat :=
  if c.isDigit then some (c.toNat - '0'.toNat)
  else if 'a' ≤ c && c ≤ 'f' then some (c.toNat - 'a'.toNat + 10)
  else if 'A' ≤ c && c ≤ 'F' then some (c.toNat - 'A'.toNat + 10)
  else none

def hexNumber? (digits : List Char) : Option Nat :=
  digits.foldlM (fun value c => (hexDigit? c).map (16 * value + ·)) 0

/-- Four characters name a character; a plus sign may stand for the first of them. -/
def codePoint? (a b c d : Char) : Option Char :=
  (hexNumber? (if a == '+' then [b, c, d] else [a, b, c, d])).bind fun code =>
    if code.isValidChar then some (Char.ofNat code) else none

def simpleEscape? : Char → Option Char
  | '"' => some '"'
  | '\\' => some '\\'
  | '/' => some '/'
  | 'b' => some '\x10'
  | 'f' => some '\x0c'
  | 'n' => some '\n'
  | 'r' => some '\r'
  | 't' => some '\t'
  | _ => none

def ofQuoted? : List Char → Option (List Char)
  | [] => some []
  | '\\' :: 'u' :: a :: b :: c :: d :: rest => do
      let first ← codePoint? a b c d
      return first :: (← ofQuoted? rest)
  | '\\' :: c :: rest => do
      let first ← simpleEscape? c
      return first :: (← ofQuoted? rest)
  | c :: rest => (ofQuoted? rest).map (c :: ·)

end Escapes

section Blocks

/-- Lines end at a line feed, with or without a carriage return in front of it. -/
def lines : List Char → List (List Char)
  | [] => [[]]
  | '\r' :: '\n' :: rest => [] :: lines rest
  | '\n' :: rest => [] :: lines rest
  | c :: rest =>
      match lines rest with
      | [] => [[c]]
      | line :: others => (c :: line) :: others

def isBlank (line : List Char) : Bool := line.all isWhiteSpace

def bytes : List Char → Nat
  | [] => 0
  | c :: rest => c.utf8Size + bytes rest

def indent (line : List Char) : Nat := bytes (line.takeWhile isWhiteSpace)

def commonIndent (lines : List (List Char)) : Option Nat :=
  ((lines.filter fun line => !isBlank line).map indent).min?

def dropBytes : Nat → List Char → List Char
  | 0, line => line
  | _, [] => []
  | size, c :: rest => dropBytes (size - c.utf8Size) rest

def unindent (size : Nat) (line : List Char) : List Char :=
  if bytes line ≥ size then dropBytes size line else line

def trimBlank (lines : List (List Char)) : List (List Char) :=
  ((lines.dropWhile isBlank).reverse.dropWhile isBlank).reverse

def unescapeQuotes : List Char → List Char
  | '\\' :: '"' :: '"' :: '"' :: rest => '"' :: '"' :: '"' :: unescapeQuotes rest
  | c :: rest => c :: unescapeQuotes rest
  | [] => []

def unindentAll : List (List Char) → List (List Char)
  | [] => []
  | first :: rest =>
      match commonIndent rest with
      | some size => first :: rest.map (unindent size)
      | none => first :: rest

def ofBlock (content : List Char) : List Char :=
  (['\n'] : List Char).intercalate ((trimBlank (unindentAll (lines content))).map unescapeQuotes)

end Blocks

end GraphQL.StringValue
