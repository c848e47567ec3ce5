/-! Lists of named things, in the order in which they were first named. A look-up finds
the first of a name. -/
namespace GraphQL

class Named (α : Type) where
  nameOf : α → String

namespace Named
variable {α : Type} [Named α]

def find? (name : String) (items : List α) : Option α :=
  items.find? fun item => nameOf item == name

def has (name : String) (items : List α) : Bool := (find? name items).isSome

/-- The item takes the place of the one with its name, or the last place. -/
def put (item : α) : List α → List α
  | [] => [item]
  | first :: rest =>
      if nameOf first == nameOf item then item :: rest else first :: put item rest

def ofList (items : List α) : List α := items.foldl (fun table item => put item table) []

/-- Whether two lists without repeated names hold the same things, in whatever order. -/
def sameAs (same : α → α → Bool) (items items' : List α) : Bool :=
  items.length == items'.length && items.all fun item =>
    match find? (nameOf item) items' with
    | some item' => same item item'
    | none => false

theorem name_of_find? {name : String} {items : List α} {item : α}
    (h : find? name items = some item) : nameOf item = name := by
  simpa using List.find?_some h

theorem mem_of_find? {name : String} {items : List α} {item : α}
    (h : find? name items = some item) : item ∈ items :=
  List.mem_of_find?_eq_some h

theorem has_iff (name : String) (items : List α) :
    has name items = true ↔ ∃ item ∈ items, nameOf item = name := by
  simp [has, find?]

end Named
end GraphQL
