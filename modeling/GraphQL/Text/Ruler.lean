import GraphQL.Text.Characters
import GraphQL.Text.Position

/-! The ruler measures places in a text whose tokens are no longer at hand. Lines are
separated by line feeds alone, a tab is eight columns wide, and carriage returns and
byte order marks take no column. A point of the text is what is left to read there. -/
namespace GraphQL.Ruler

def width (c : Char) : Nat :=
  if c == '\t' then 8 else if c == '\r' || Text.isByteOrderMark c then 0 else 1

def next (place : Position) (c : Char) : Position :=
  if c == '\n' then ⟨place.line + 1, 1⟩ else ⟨place.line, place.column + width c⟩

def placeAfter (passed : List Char) : Position :=
  passed.foldl next .start

def placeOf (text rest : List Char) : Position :=
  placeAfter (text.take (text.length - rest.length))

def dropLines : Nat → List Char → Option (List Char)
  | 0, text => some text
  | _ + 1, [] => none
  | lines + 1, c :: rest =>
      if c == '\n' then dropLines lines rest else dropLines (lines + 1) rest

-- The first character that starts in the column wins, so a place in front of
-- characters without width is the place of the first of them.
def seekColumn (wanted column : Nat) : List Char → Option (List Char)
  | [] => none
  | c :: rest =>
      if column = wanted then some (c :: rest)
      else if c == '\n' then none
      else seekColumn wanted (column + width c) rest

def restAt (text : List Char) (place : Position) : Option (List Char) :=
  match place.line with
  | 0 => none
  | lines + 1 => (dropLines lines text).bind (seekColumn place.column 1)

end GraphQL.Ruler
