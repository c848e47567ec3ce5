import GraphQL.Proofs.DistinctNames
import GraphQL.Schema.Draft
import GraphQL.Schema.Equality

/-! The table of possible types says what the types say one by one: an interface that
there is such a type, an object which interfaces it belongs to, a union its members. What
is said of one name is collected, each object once and in the order in which it is first
said. -/
namespace GraphQL

section Names
variable {names more : List String} {name : String}

namespace Draft

theorem mem_add_name (other : String) :
    name ∈ addName names other ↔ name ∈ names ∨ name = other := by
  rw [addName]
  split
  · next known =>
    have member : other ∈ names := List.contains_iff_mem.mp known
    constructor
    · exact .inl
    · rintro (before | rfl)
      · exact before
      · exact member
  · rw [List.mem_append, List.mem_singleton]

theorem nodup_add_name (nodup : names.Nodup) (other : String) : (addName names other).Nodup := by
  rw [addName]
  split
  · exact nodup
  · next fresh =>
    apply Named.nodup_append_single.mpr
    exact ⟨nodup, fun member => fresh (List.contains_iff_mem.mpr member)⟩

theorem mem_add_names : name ∈ more.foldl addName names ↔ name ∈ names ∨ name ∈ more := by
  induction more generalizing names with
  | nil => simp
  | cons first rest ih => rw [List.foldl_cons, ih, mem_add_name, List.mem_cons, or_assoc]

theorem nodup_add_names (nodup : names.Nodup) : (more.foldl addName names).Nodup := by
  induction more generalizing names with
  | nil => exact nodup
  | cons first rest ih => exact ih (nodup_add_name nodup first)

end Draft

theorem same_names_of_mem_iff {names names' : List String} (nodup : names.Nodup)
    (nodup' : names'.Nodup) (same : ∀ name, name ∈ names ↔ name ∈ names') :
    sameNames names names' = true := by
  rw [sameNames, Bool.and_eq_true, beq_iff_eq, List.all_eq_true]
  constructor
  · exact ((List.perm_ext_iff_of_nodup nodup nodup').mpr same).length_eq
  · exact fun name member => List.contains_iff_mem.mpr ((same name).mp member)

end Names

section Entries

/-- What a type says about possible types: of which name, and which objects. -/
def SchemaType.possibilities : SchemaType → List (String × List String)
  | .interface t => [(t.name, [])]
  | .object t => t.interfaces.map fun interface => (interface, [t.name])
  | .union t => [(t.name, t.members)]
  | .builtin _ | .scalar _ | .enum _ | .input _ => []

namespace Draft

def addEntry (possible : List Possible) (entry : String × List String) : List Possible :=
  addPossible entry.1 entry.2 possible

theorem add_possible_of_eq (possible : List Possible) (type : SchemaType) :
    addPossibleOf possible type = type.possibilities.foldl addEntry possible := by
  cases type with
  | object t => rw [addPossibleOf, SchemaType.possibilities, List.foldl_map]; rfl
  | _ => rfl

theorem fold_possible_eq (types : List SchemaType) (possible : List Possible) :
    types.foldl addPossibleOf possible =
      (types.flatMap SchemaType.possibilities).foldl addEntry possible := by
  induction types generalizing possible with
  | nil => rfl
  | cons type rest ih =>
      rw [List.foldl_cons, List.flatMap_cons, List.foldl_append, ih, add_possible_of_eq]

/-- What entries say of a name. -/
def saidOf (name : String) (entries : List (String × List String)) : List String :=
  (entries.filter fun entry => entry.1 == name).flatMap Prod.snd

def objectsOf (name : String) (possible : List Possible) : List String :=
  ((Named.find? name possible).map Possible.objects).getD []

variable {possible : List Possible} {entries : List (String × List String)} {name : String}

theorem find_add_same (objects : List String) :
    Named.find? name (addPossible name objects possible) =
      some ⟨name, objects.foldl addName (objectsOf name possible)⟩ := by
  induction possible with
  | nil => simp [addPossible, Named.find?, Named.nameOf, objectsOf]
  | cons first rest ih =>
      rw [addPossible, objectsOf]
      by_cases same : first.name = name
      · simp [same, Named.find?, Named.nameOf]
      · rw [if_neg (by simpa using same)]
        have skip (rest : List Possible) :
            Named.find? name (first :: rest) = Named.find? name rest :=
          List.find?_cons_of_neg (by simpa [Named.nameOf] using same)
        rw [skip, skip, ih, objectsOf]

theorem find_add_other (objects : List String) {key : String} (other : key ≠ name) :
    Named.find? name (addPossible key objects possible) = Named.find? name possible := by
  induction possible with
  | nil => simp [addPossible, Named.find?, Named.nameOf, other]
  | cons first rest ih =>
      rw [addPossible]
      split
      · next same =>
        have named : first.name = key := by simpa using same
        simp [Named.find?, Named.nameOf, named, other]
      · next =>
        rw [Named.find?, Named.find?, List.find?_cons, List.find?_cons]
        rw [← Named.find?, ← Named.find?, ih]

theorem names_add (key : String) (objects : List String) :
    (addPossible key objects possible).map Possible.name =
      addName (possible.map Possible.name) key := by
  induction possible with
  | nil => rfl
  | cons first rest ih =>
      rw [addPossible, addName, List.map_cons, List.contains_cons]
      by_cases same : first.name = key
      · simp [same]
      · rw [if_neg (by simpa using same), List.map_cons, ih, addName]
        have other : (key == first.name) = false := beq_false_of_ne (Ne.symm same)
        rw [other, Bool.false_or]
        split <;> rfl

theorem said_of_cons_same (objects : List String) :
    saidOf name ((name, objects) :: entries) = objects ++ saidOf name entries := by
  simp [saidOf]

theorem said_of_cons_other (objects : List String) {key : String} (other : key ≠ name) :
    saidOf name ((key, objects) :: entries) = saidOf name entries := by
  simp [saidOf, other]

theorem said_of_unknown (unknown : name ∉ entries.map Prod.fst) : saidOf name entries = [] := by
  have silent : (entries.filter fun entry => entry.1 == name) = [] := by
    rw [List.filter_eq_nil_iff]
    intro entry member same
    exact unknown (List.mem_map.mpr ⟨entry, member, beq_iff_eq.mp same⟩)
  rw [saidOf, silent, List.flatMap_nil]

theorem find_add_entries :
    Named.find? name (entries.foldl addEntry possible) =
      if name ∈ entries.map Prod.fst then
        some ⟨name, (saidOf name entries).foldl addName (objectsOf name possible)⟩
      else Named.find? name possible := by
  induction entries generalizing possible with
  | nil => rfl
  | cons entry rest ih =>
      -- An entry counts for its own name only; there its objects come after those before it.
      rcases entry with ⟨key, objects⟩
      rw [List.foldl_cons, ih, addEntry, List.map_cons]
      by_cases same : key = name
      · subst same
        rw [find_add_same, objectsOf, find_add_same, Option.map_some, Option.getD_some,
          said_of_cons_same, List.foldl_append, if_pos List.mem_cons_self]
        split
        · rfl
        · next unknown => rw [said_of_unknown unknown]; rfl
      · rw [objectsOf, find_add_other _ same, said_of_cons_other _ same, ← objectsOf]
        simp only [List.mem_cons, Ne.symm same, false_or]

theorem names_add_entries :
    (entries.foldl addEntry possible).map Possible.name =
      (entries.map Prod.fst).foldl addName (possible.map Possible.name) := by
  induction entries generalizing possible with
  | nil => rfl
  | cons entry rest ih => rw [List.foldl_cons, ih, addEntry, names_add, List.map_cons, List.foldl_cons]

end Draft
end Entries

section Tables
variable {types types' : List SchemaType}

namespace Draft

def possibleOf (types : List SchemaType) : List Possible := types.foldl addPossibleOf []

def possibilities (types : List SchemaType) : List (String × List String) :=
  types.flatMap SchemaType.possibilities

/-- The objects that may stand for a name are those that the types say, in their order. -/
theorem find_possible (types : List SchemaType) (name : String) :
    Named.find? name (possibleOf types) =
      if name ∈ (possibilities types).map Prod.fst then
        some ⟨name, (saidOf name (possibilities types)).foldl addName []⟩
      else none := by
  rw [possibleOf, fold_possible_eq, find_add_entries]
  rfl

theorem names_possible (types : List SchemaType) :
    (possibleOf types).map Possible.name =
      ((possibilities types).map Prod.fst).foldl addName [] := by
  rw [possibleOf, fold_possible_eq, names_add_entries]
  rfl

theorem distinct_possible (types : List SchemaType) : Named.Distinct (possibleOf types) := by
  have names : (possibleOf types).map Named.nameOf = (possibleOf types).map Possible.name := rfl
  rw [Named.Distinct, names, names_possible]
  exact nodup_add_names List.nodup_nil

theorem said_of_perm {entries entries' : List (String × List String)}
    (perm : entries.Perm entries') (name object : String) :
    object ∈ (saidOf name entries).foldl addName [] ↔
      object ∈ (saidOf name entries').foldl addName [] := by
  rw [mem_add_names, mem_add_names]
  exact or_congr_right ((perm.filter _).flatMap_right _).mem_iff

/-- Types in another order have the same possible types. -/
theorem same_possible (perm : types.Perm types') :
    Named.sameAs Possible.same (possibleOf types) (possibleOf types') = true := by
  have entries : (possibilities types).Perm (possibilities types') := perm.flatMap_right _
  apply Named.same_as_of_find (distinct_possible types) (distinct_possible types')
  · intro name
    show name ∈ (possibleOf types).map Possible.name ↔ name ∈ (possibleOf types').map Possible.name
    rw [names_possible, names_possible, mem_add_names, mem_add_names, (entries.map _).mem_iff]
  · intro item item' own found
    rw [find_possible, Option.ite_none_right_eq_some] at own found
    obtain ⟨_, own⟩ := own
    obtain ⟨_, found⟩ := found
    rw [← Option.some.inj own, ← Option.some.inj found, Possible.same, Bool.and_eq_true]
    constructor
    · exact beq_self_eq_true _
    · exact same_names_of_mem_iff (nodup_add_names List.nodup_nil)
        (nodup_add_names List.nodup_nil) (said_of_perm entries _)

end Draft
end Tables
end GraphQL
