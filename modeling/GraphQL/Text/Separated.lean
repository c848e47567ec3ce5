/-! Text that is divided by a separator: every separator ends one part and begins the
next, so there is always one part more than there are separators. -/
namespace GraphQL.Separated

def divide (separator : Char) : List Char → List (List Char)
  | [] => [[]]
  | c :: rest =>
      if c = separator then [] :: divide separator rest
      else
        match divide separator rest with
        | [] => [[c]]
        | part :: parts => (c :: part) :: parts

def parts (separator : Char) (text : String) : List String :=
  (divide separator text.toList).map String.ofList

/-- The text in front of the first separator and, if there is one, the text after it. -/
def splitFirst (separator : Char) (text : List Char) : List Char × Option (List Char) :=
  match text.dropWhile (· != separator) with
  | [] => (text, none)
  | _ :: rest => (text.takeWhile (· != separator), some rest)

end GraphQL.Separated
