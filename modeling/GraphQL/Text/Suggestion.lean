import GraphQL.Text.EditDistance
import GraphQL.Text.LowerCase

/-! Suggestions: which of some options may have been meant, and how they are put into
words. An option is close if it can be reached by changing half of the longer of the
two texts. -/
namespace GraphQL.Suggestion

section Ranking

def lexicalDistance (input option : String) : Nat :=
  if input = option then 0
  else if LowerCase.lower input = LowerCase.lower option then 1
  else EditDistance.distance (LowerCase.lower input) (LowerCase.lower option)

def threshold (input option : String) : Nat :=
  max (max (input.length / 2) (option.length / 2)) 1

def isClose (input option : String) : Bool :=
  lexicalDistance input option ≤ threshold input option

/-- The close options, the closest first; of equally close ones the order is kept. -/
def closeOptions (input : String) (options : List String) : List String :=
  (options.filter (isClose input)).mergeSort fun a b =>
    lexicalDistance input a ≤ lexicalDistance input b

end Ranking

section Wording

def most : Nat := 5

def quoted (item : String) : String := "\"" ++ item ++ "\""

def listed (items : List String) : List String := (items.take most).map quoted

def quotedList (items : List String) : String := ", ".intercalate (listed items)

def alternatives : List String → String
  | [] => ""
  | [only] => only
  | [first, second] => first ++ " or " ++ second
  | items => ", ".intercalate items.dropLast ++ ", or " ++ items.getLastD ""

def quotedOrList (items : List String) : String := alternatives (listed items)

def perhapsYouMeant (suggestions : List String) : String :=
  if suggestions.isEmpty then ""
  else " Perhaps you meant one of the following: " ++ quotedList suggestions ++ "."

def didYouMean (phrase? : Option String) (suggestions : List String) : String :=
  if suggestions.isEmpty then ""
  else
    match phrase? with
    | some phrase => " Did you mean " ++ phrase ++ " " ++ quotedOrList suggestions ++ "?"
    | none => " Did you mean " ++ quotedOrList suggestions ++ "?"

end Wording

end GraphQL.Suggestion
