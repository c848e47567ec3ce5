/-! Places in a source text. Lines and columns count from one. What a schema holds
either comes from the language itself or was written at a place. -/
namespace GraphQL

structure Position where
  line : Nat
  column : Nat
deriving DecidableEq

namespace Position

def start : Position := ⟨1, 1⟩

instance : Inhabited Position := ⟨start⟩

def text (place : Position) : String :=
  toString place.line ++ ":" ++ toString place.column

end Position

inductive Origin where
  | builtin
  | written (place : Position)
deriving DecidableEq

namespace Origin

def position? : Origin → Option Position
  | builtin => none
  | written place => some place

end Origin

end GraphQL
