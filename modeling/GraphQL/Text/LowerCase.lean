import GraphQL.Text.LetterCase

/-! Text in lower case. One letter becomes two, the capital I with a dot, and a sigma at
the end of a word has a form of its own. -/
namespace GraphQL.LowerCase
open LetterCase

/-- Whether the next character that is not passed over has case. -/
def casedNext (text : List Char) : Bool :=
  match text.dropWhile isIgnorable with
  | [] => false
  | c :: _ => isCased c

/-- `before` is the text before the letter, from the letter backwards. -/
def lowerIn (before : List Char) (c : Char) (after : List Char) : List Char :=
  match c with
  | 'İ' => ['i', '\u0307']
  | 'Σ' => if casedNext before && !casedNext after then ['ς'] else ['σ']
  | _ => [lowerLetter c]

def lowerFrom (before : List Char) : List Char → List Char
  | [] => []
  | c :: after => lowerIn before c after ++ lowerFrom (c :: before) after

def lower (text : String) : List Char := lowerFrom [] text.toList

end GraphQL.LowerCase
