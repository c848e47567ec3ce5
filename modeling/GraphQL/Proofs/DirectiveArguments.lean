import GraphQL.Proofs.AncestralScope
import Mathlib.Data.List.Induction

/-! Whose parameters the arguments of a directive are: those of the directive, if it is
defined. A directive that is not defined leaves no mark in the scope, so its arguments are
taken for arguments of the nearest field around it, at whatever distance that field is. -/
namespace GraphQL

def Node.isField : Node → Bool
  | .selection (.field _) => true
  | _ => false

section Visits
variable {above : List Node} {node : Node} {visit : Visit}

theorem Node.enters (above : List Node) (node : Node) :
    ⟨above ++ [node], .entering⟩ ∈ node.visits above := by
  rw [visits_eq]
  exact List.mem_cons_self

theorem Node.visits_below (child : Node) (member : child ∈ node.children)
    (visited : visit ∈ child.visits (above ++ [node])) : visit ∈ node.visits above := by
  rw [visits_eq]
  exact List.mem_cons_of_mem _
    (List.mem_append_left _ (List.mem_flatMap.mpr ⟨child, member, visited⟩))

end Visits

namespace Scope

section Nearest
variable (schema : Schema)

/-- The definition of the last field on a way, which is given from its end to the root. -/
def lastField? : List Node → Option OutputField
  | [] => none
  | .selection (.field f) :: above => (along schema above.reverse).fieldDefinition f.name
  | _ :: above => lastField? above

/-- The definition of the nearest field that the end of a way stands in. -/
def nearestField? (way : List Node) : Option OutputField := lastField? schema way.reverse

variable {schema}

theorem enter_fields (scope : Scope) {node : Node} (other : node.isField = false) :
    (scope.enter schema node).fields = scope.fields := by
  cases node with
  | selection s =>
      cases s with
      | field f => cases other
      | spread s => rfl
      | inline f => rfl
  | definition d => cases d <;> rfl
  | value v =>
      rcases v with ⟨_, form⟩
      cases form <;> rfl
  | _ => rfl

theorem nearest_field_append {node : Node} (way : List Node) (other : node.isField = false) :
    nearestField? schema (way ++ [node]) = nearestField? schema way := by
  rw [nearestField?, List.reverse_append]
  cases node with
  | selection s =>
      cases s with
      | field f => cases other
      | spread s => rfl
      | inline f => rfl
  | _ => rfl

theorem nearest_field_of_field (way : List Node) (f : Field) :
    nearestField? schema (way ++ [.selection (.field f)]) =
      (along schema way).fieldDefinition f.name := by
  rw [nearestField?, List.reverse_append]
  exact congrArg (fun way => (along schema way).fieldDefinition f.name) way.reverse_reverse

theorem nearest_field_none {way : List Node} (outside : ∀ node ∈ way, node.isField = false) :
    nearestField? schema way = none := by
  induction way using List.reverseRecOn with
  | nil => rfl
  | append_singleton way node ih =>
      obtain ⟨above, last⟩ := List.forall_mem_append.mp outside
      rw [nearest_field_append way (last node List.mem_cons_self)]
      exact ih above

theorem field_along (way : List Node) : (along schema way).field? = nearestField? schema way := by
  induction way using List.reverseRecOn with
  | nil => rfl
  | append_singleton way node ih =>
      rw [along_append]
      cases own : node.isField with
      | false => rw [field?, enter_fields _ own, nearest_field_append way own, ← ih, field?]
      | true =>
          cases node with
          | selection s =>
              cases s with
              | field f => exact (nearest_field_of_field way f).symm
              | _ => cases own
          | _ => cases own

end Nearest

section Arguments
variable {schema : Schema} (above : List Node) (d : Directive) (a : Argument)

/-- What an argument of a directive stands for at the end of a way. -/
theorem argument_along : (along schema (above ++ [.directive d, .argument a])).argument? =
    match schema.directive? d.name with
    | some rule => Named.find? a.name rule.parameters
    | none =>
        (nearestField? schema above).bind fun field => Named.find? a.name field.parameters := by
  have way : above ++ [.directive d, .argument a] = above ++ [.directive d] ++ [.argument a] := by
    simp
  have around : (along schema (above ++ [.directive d])).field? = nearestField? schema above :=
    (field_along _).trans (nearest_field_append above rfl)
  have inside : (along schema (above ++ [.directive d])).directive? =
      schema.directive? d.name := by
    rw [along_append]
    rfl
  rw [way, along_append]
  change (along schema (above ++ [.directive d])).parameter a.name = _
  rw [parameter, around]
  cases defined : schema.directive? d.name with
  | none => simp only [inside, defined]
  | some rule => simp only [inside, defined]

theorem input_along : (along schema (above ++ [.directive d, .argument a])).input? =
    ((along schema (above ++ [.directive d, .argument a])).argument?.map InputValue.type).filter
      (isInput schema) := by
  have way : above ++ [.directive d, .argument a] = above ++ [.directive d] ++ [.argument a] := by
    simp
  rw [way, along_append]
  rfl

end Arguments
end Scope

namespace Inspection

section Sightings
universe u
variable {Inner : Type u} {Allowed : Inner → Prop} {inner : Guide (Inner × Inspection)}

theorem tour_sees (looks : LooksOn Allowed inner) (state : Inner) (allowed : Allowed state)
    (schema : Schema) (document : Document) (limit? : Option Nat) :
    let result := (tracked (watched inner)).tour
      ((state, ⟨[], []⟩), start schema document limit?) (.document document)
    Sees schema ((Node.document document).visits []) [] result.1.1.2.sightings := by
  have stands : Stands schema Allowed [] ((state, ⟨[], []⟩), start schema document limit?) :=
    ⟨allowed, rfl, rfl, rfl⟩
  exact (tours_right looks (.document document) [] _ stands (Scope.empty_fits _)).sees

theorem Sees.right {schema : Schema} {visits : List Visit} {sightings : List Sighting}
    (sees : Sees schema visits [] sightings) : ∀ sighting ∈ sightings, sighting.Right schema := by
  obtain ⟨seen, rfl, _, right⟩ := sees
  exact right

/-- A tour that makes as many visits as there are makes them all. -/
theorem Sees.sights_all {schema : Schema} {visits : List Visit} {sightings : List Sighting}
    (sees : Sees schema visits [] sightings) (all : visits.length ≤ sightings.length) :
    sightings.map Sighting.visit = visits := by
  obtain ⟨seen, rfl, sublist, _⟩ := sees
  exact sublist.eq_of_length_le (by simpa using all)

end Sightings

section Greeting

def onlooker : Guide (Unit × Inspection) :=
  ⟨fun state _ => (state, .ok .proceed), fun state _ => (state, .ok .proceed)⟩

theorem onlooker_looks_on : LooksOn (fun _ => True) onlooker :=
  ⟨fun _ _ _ => ⟨fun _ => trivial, rfl, rfl⟩, fun _ _ _ => ⟨fun _ => trivial, rfl, rfl⟩⟩

def greeting : Schema :=
  ⟨builtinTypes ++ [.object ⟨.written .start, none, "Query", [],
    [⟨.written .start, none, "hello", [⟨.written .start, "name", .named "String" true, none⟩],
      .named "Int" true⟩]⟩], builtinRules, [], "Query", none, none⟩

def unknownArgument : Argument := ⟨.start, "name", ⟨.start, .whole 1⟩⟩

def unknownDirective : Directive := ⟨.start, "unknown", [unknownArgument]⟩

/-- An operation that asks for the field, with the directives in front of its selections
and behind the field. -/
def asking (outer inner : List Directive) : Definition :=
  .operation ⟨.start, .query, none, [], outer,
    ⟨.start, [.field ⟨.start, none, "hello", [], inner, none⟩]⟩⟩

def askingWith (outer inner : List Directive) : Document := ⟨[asking outer inner]⟩

def sightingsOf (document : Document) : List Sighting :=
  ((tracked (watched onlooker)).tour (((), ⟨[], []⟩), start greeting document none)
    (.document document)).1.1.2.sightings

theorem sighting_at {document : Document} {visit : Visit}
    (all : ((Node.document document).visits []).length ≤ (sightingsOf document).length)
    (member : visit ∈ (Node.document document).visits []) :
    ∃ sighting ∈ sightingsOf document, sighting.visit = visit ∧ sighting.Right greeting := by
  have sees : Sees greeting ((Node.document document).visits []) [] (sightingsOf document) :=
    tour_sees onlooker_looks_on () trivial greeting document none
  rw [← sees.sights_all all] at member
  obtain ⟨sighting, sighted, same⟩ := List.mem_map.mp member
  exact ⟨sighting, sighted, same, sees.right sighting sighted⟩

end Greeting

section Unknown
universe u
variable {Inner : Type u} {Allowed : Inner → Prop} {inner : Guide (Inner × Inspection)}

/-- At an argument of a directive a tour knows the parameter of the directive with that
name. If the directive is not defined it knows that of the nearest field around the
directive, and it knows nothing if there is no such field. -/
theorem arguments_of_directives (looks : LooksOn Allowed inner) (state : Inner)
    (allowed : Allowed state) (schema : Schema) (document : Document) (limit? : Option Nat) :
    let result := (tracked (watched inner)).tour
      ((state, ⟨[], []⟩), start schema document limit?) (.document document)
    ∀ sighting ∈ result.1.1.2.sightings, ∀ above d a,
      sighting.visit.way = above ++ [.directive d, .argument a] →
        (∀ rule, schema.directive? d.name = some rule →
          sighting.known.argument? = Named.find? a.name rule.parameters) ∧
        (schema.directive? d.name = none →
          sighting.known.argument? = (Scope.nearestField? schema above).bind fun field =>
            Named.find? a.name field.parameters) ∧
        (schema.directive? d.name = none → (∀ node ∈ above, node.isField = false) →
          sighting.known.argument? = none ∧ sighting.known.input? = none) ∧
        sighting.known.input? =
          (sighting.known.argument?.map InputValue.type).filter (Scope.isInput schema) := by
  intro result sighting sighted above d a way
  have right := (tour_sees looks state allowed schema document limit?).right sighting sighted
  rw [Sighting.Right, way] at right
  have argument : sighting.known.argument? = _ :=
    (congrArg Scope.Knowledge.argument? right).trans (Scope.argument_along above d a)
  have input : sighting.known.input? =
      (sighting.known.argument?.map InputValue.type).filter (Scope.isInput schema) := by
    rw [right]
    exact Scope.input_along above d a
  refine ⟨fun rule defined => ?_, fun undefined => ?_, fun undefined outside => ?_, input⟩
  · rw [argument, defined]
  · rw [argument, undefined]
  · have unknown : sighting.known.argument? = none := by
      rw [argument, undefined, Scope.nearest_field_none outside]
      rfl
    rw [input, unknown]
    exact ⟨rfl, rfl⟩

/-- In front of the selections, where no field is around, the argument is unknown. -/
theorem unknown_argument_of_operation :
    let document := askingWith [unknownDirective] []
    LooksOn (fun _ => True) onlooker ∧ greeting.directive? unknownDirective.name = none ∧
      ∃ sighting ∈ sightingsOf document, ∃ above,
        sighting.visit.way = above ++ [.directive unknownDirective, .argument unknownArgument] ∧
        sighting.known.argument? = none ∧ sighting.known.input? = none := by
  intro document
  let above : List Node :=
    [.document document, .definition (asking [unknownDirective] [])]
  let visit : Visit :=
    ⟨above ++ [.directive unknownDirective, .argument unknownArgument], .entering⟩
  have visited : visit ∈ (Node.document document).visits [] := by
    refine Node.visits_below (.definition (asking [unknownDirective] [])) List.mem_cons_self ?_
    refine Node.visits_below (.directive unknownDirective) List.mem_cons_self ?_
    refine Node.visits_below (.argument unknownArgument) List.mem_cons_self ?_
    exact Node.enters _ _
  obtain ⟨sighting, sighted, here, _⟩ := sighting_at (by decide +kernel) visited
  have undefined : greeting.directive? unknownDirective.name = none := by decide +kernel
  have outside : ∀ node ∈ above, node.isField = false := by simp [above, Node.isField]
  obtain ⟨_, _, unknown, _⟩ := arguments_of_directives onlooker_looks_on () trivial
    greeting document none sighting sighted above unknownDirective unknownArgument
    (congrArg Visit.way here)
  exact ⟨onlooker_looks_on, undefined, sighting, sighted, above, congrArg Visit.way here,
    unknown undefined outside⟩

/-- The argument of a directive that is not defined is taken for one of the field. -/
theorem unknown_argument_of_field :
    let document := askingWith [] [unknownDirective]
    greeting.directive? unknownDirective.name = none ∧
      ∃ sighting ∈ sightingsOf document, ∃ above,
        sighting.visit.way = above ++ [.directive unknownDirective, .argument unknownArgument] ∧
        sighting.known.argument?.map InputValue.name = some "name" ∧
        sighting.known.input?.isSome = true := by
  intro document
  let field : Field := ⟨.start, none, "hello", [], [unknownDirective], none⟩
  let above : List Node :=
    [.document document, .definition (asking [] [unknownDirective]),
      .selectionSet ⟨.start, [.field field]⟩, .selection (.field field)]
  let visit : Visit :=
    ⟨above ++ [.directive unknownDirective, .argument unknownArgument], .entering⟩
  have visited : visit ∈ (Node.document document).visits [] := by
    refine Node.visits_below (.definition (asking [] [unknownDirective])) List.mem_cons_self ?_
    refine Node.visits_below (.selectionSet ⟨.start, [.field field]⟩) List.mem_cons_self ?_
    refine Node.visits_below (.selection (.field field)) List.mem_cons_self ?_
    refine Node.visits_below (.directive unknownDirective) List.mem_cons_self ?_
    refine Node.visits_below (.argument unknownArgument) List.mem_cons_self ?_
    exact Node.enters _ _
  obtain ⟨sighting, sighted, here, right⟩ := sighting_at (by decide +kernel) visited
  rw [Sighting.Right, here] at right
  refine ⟨by decide +kernel, sighting, sighted, above, congrArg Visit.way here, ?_⟩
  rw [right]
  constructor
  all_goals decide +kernel

end Unknown
end Inspection
end GraphQL
