import GraphQL.Proofs.ScopeStacks

/-! What is known about types at a node follows from the nodes on the way to it. A tour
goes on with one scope from node to node; whatever it has entered, skipped or left before
it comes to a node, it knows there what it would know if it had entered the nodes on the
way and nothing else. -/
namespace GraphQL

section Visits

/-- A call that a tour makes of a guide. The way leads from the root to the node, both of
them included. -/
structure Visit where
  way : List Node
  phase : Phase

namespace Tree

mutual

def visits (above : List Node) : Tree Node → List Visit
  | .node root branches =>
      ⟨above ++ [root], .entering⟩ ::
        (visitsAll (above ++ [root]) branches ++ [⟨above ++ [root], .leaving⟩])

def visitsAll (above : List Node) : List (Tree Node) → List Visit
  | [] => []
  | tree :: rest => tree.visits above ++ visitsAll above rest

end

theorem visits_all_eq (above : List Node) (trees : List (Tree Node)) :
    visitsAll above trees = trees.flatMap (visits above) := by
  induction trees with
  | nil => rfl
  | cons tree rest ih => rw [visitsAll, ih, List.flatMap_cons]

end Tree

def Node.visits (above : List Node) (node : Node) : List Visit := node.tree.visits above

theorem Node.visits_eq (above : List Node) (node : Node) :
    node.visits above =
      ⟨above ++ [node], .entering⟩ :: (node.children.flatMap (visits (above ++ [node])) ++
        [⟨above ++ [node], .leaving⟩]) := by
  rw [visits, tree_eq, Tree.visits, Tree.visits_all_eq, List.flatMap_map]
  rfl

end Visits

/-! The directive and the argument in scope are not stacked: leaving one forgets it. That
restores what was there before because below a directive there is no other directive, and
below an argument no other argument. -/
section Slots

namespace Node

def isDirective : Node → Bool
  | .directive _ => true
  | _ => false

def inValue : Node → Bool
  | .value _ | .objectField _ => true
  | _ => false

def inArgument : Node → Bool
  | .argument _ => true
  | node => node.inValue

variable {node child : Node}

theorem in_value_inherited (parent : node.inArgument = true) (member : child ∈ node.children) :
    child.inValue = true := by
  cases node with
  | argument a =>
      rw [List.mem_singleton.mp member]
      rfl
  | objectField f =>
      rw [List.mem_singleton.mp member]
      rfl
  | value v =>
      rcases v with ⟨_, form⟩
      cases form with
      | list items =>
          obtain ⟨item, _, rfl⟩ := List.mem_map.mp member
          rfl
      | object fields =>
          obtain ⟨field, _, rfl⟩ := List.mem_map.mp member
          rfl
      | _ => exact absurd member List.not_mem_nil
  | _ => cases parent

theorem in_argument_of_in_value (inside : node.inValue = true) : node.inArgument = true := by
  cases node with
  | value v => rfl
  | objectField f => rfl
  | _ => cases inside

theorem below_directive (parent : node.isDirective = true) (member : child ∈ node.children) :
    child.inArgument = true := by
  cases node with
  | directive d =>
      obtain ⟨argument, _, rfl⟩ := List.mem_map.mp member
      rfl
  | _ => cases parent

end Node

namespace Scope

/-- No directive is in scope but below a directive, and no argument but below one. -/
structure Fits (scope : Scope) (node : Node) : Prop where
  directive : node.inArgument = false → scope.directive? = none
  argument : node.inValue = false → scope.argument? = none

variable {scope : Scope} {node : Node}

theorem empty_fits (node : Node) : empty.Fits node := ⟨fun _ => rfl, fun _ => rfl⟩

theorem enter_directive (schema : Schema) (other : node.isDirective = false) :
    (scope.enter schema node).directive? = scope.directive? := by
  cases node with
  | directive d => cases other
  | definition d => cases d <;> rfl
  | selection s => cases s <;> rfl
  | value v =>
      rcases v with ⟨_, form⟩
      cases form <;> rfl
  | _ => rfl

theorem enter_argument (schema : Schema) (other : node.inArgument = false) :
    (scope.enter schema node).argument? = scope.argument? := by
  cases node with
  | argument a => cases other
  | value v => cases other
  | definition d => cases d <;> rfl
  | selection s => cases s <;> rfl
  | _ => rfl

theorem Fits.child (fits : scope.Fits node) (schema : Schema) {child : Node}
    (member : child ∈ node.children) : (scope.enter schema node).Fits child := by
  -- Below a directive all is in an argument, and below an argument all is in a value, so
  -- a child that is outside of them has a node above it that is outside as well.
  constructor
  · intro outside
    have above : node.isDirective = false := by
      rw [Bool.eq_false_iff]
      intro directive
      rw [Node.below_directive directive member] at outside
      cases outside
    have around : node.inArgument = false := by
      rw [Bool.eq_false_iff]
      intro inside
      have below := Node.in_value_inherited inside member
      rw [Node.in_argument_of_in_value below] at outside
      cases outside
    rw [enter_directive schema above]
    exact fits.directive around
  · intro outside
    have around : node.inArgument = false := by
      rw [Bool.eq_false_iff]
      intro inside
      rw [Node.in_value_inherited inside member] at outside
      cases outside
    have far : node.inValue = false := by
      rw [Bool.eq_false_iff]
      intro inside
      rw [Node.in_argument_of_in_value inside] at around
      cases around
    rw [enter_argument schema around]
    exact fits.argument far

/-- Leaving a node restores all that was known before. -/
theorem Fits.leave_enter (fits : scope.Fits node) (schema : Schema) :
    (scope.enter schema node).leave node = scope := by
  -- The stacks lose what they were given. The two slots become empty, which they were.
  rcases scope with ⟨types, parents, inputs, fields, directive?, argument?⟩
  cases node with
  | definition d => cases d <;> rfl
  | selection s => cases s <;> rfl
  | value v =>
      rcases v with ⟨_, form⟩
      cases form <;> rfl
  | directive d =>
      have none_before : directive? = none := fits.directive rfl
      rw [none_before]
      rfl
  | argument a =>
      have none_before : argument? = none := fits.argument rfl
      rw [none_before]
      rfl
  | _ => rfl

/-- What is in scope at the end of a way when only the nodes on it were entered. -/
def along (schema : Schema) (way : List Node) : Scope := way.foldl (enter schema) .empty

theorem along_append (schema : Schema) (way : List Node) (node : Node) :
    along schema (way ++ [node]) = (along schema way).enter schema node := by
  rw [along, List.foldl_append]
  rfl

/-- The answers to all that a guide can ask. -/
structure Knowledge where
  type? : Option TypeExpr
  parent? : Option SchemaType
  input? : Option TypeExpr
  parentInput? : Option TypeExpr
  field? : Option OutputField
  directive? : Option DirectiveRule
  argument? : Option InputValue

def knowledge (scope : Scope) : Knowledge :=
  ⟨scope.type?, scope.parent?, scope.input?, scope.parentInput?, scope.field?,
    scope.directive?, scope.argument?⟩

end Scope

end Slots

/-! A guide is watched when every call of it is noted together with what can be known at
the time, before the guide is asked. -/
section Watching
universe u
variable {Inner : Type u}

namespace Inspection

structure Sighting where
  visit : Visit
  known : Scope.Knowledge

/-- The nodes that are entered and not left, and what was sighted so far. -/
structure Watch where
  above : List Node
  sightings : List Sighting

def Watch.note (watch : Watch) (visit : Visit) (inspection : Inspection) : List Sighting :=
  watch.sightings ++ [⟨visit, inspection.scope.knowledge⟩]

def watched (inner : Guide (Inner × Inspection)) : Guide ((Inner × Watch) × Inspection) where
  enter state node :=
    let way := state.1.2.above ++ [node]
    let noted := state.1.2.note ⟨way, .entering⟩ state.2
    match inner.enter (state.1.1, state.2) node with
    | (after, .ok .skip) => (((after.1, ⟨state.1.2.above, noted⟩), after.2), .ok .skip)
    | (after, answer) => (((after.1, ⟨way, noted⟩), after.2), answer)
  leave state node :=
    let above := state.1.2.above.dropLast
    let noted := state.1.2.note ⟨above ++ [node], .leaving⟩ state.2
    match inner.leave (state.1.1, state.2) node with
    | (after, answer) => (((after.1, ⟨above, noted⟩), after.2), answer)

/-- An answer after which all is known that was known before. -/
structure Harmless (Allowed : Inner → Prop) (before : Inspection)
    (result : (Inner × Inspection) × Except Fault Action) : Prop where
  allowed : Ending.ofAnswer result.2 = .finished → Allowed result.1.1
  schema : result.1.2.schema = before.schema
  scope : result.1.2.scope = before.scope

/-- A guide in an allowed state looks at what is known about types and leaves it alone. -/
structure LooksOn (Allowed : Inner → Prop) (inner : Guide (Inner × Inspection)) : Prop where
  enter : ∀ state node, Allowed state.1 → Harmless Allowed state.2 (inner.enter state node)
  leave : ∀ state node, Allowed state.1 → Harmless Allowed state.2 (inner.leave state node)

theorem watched_carries (inner : Guide (Inner × Inspection)) :
    (tracked (watched inner)).Carries (tracked inner) fun state => (state.1.1, state.2) := by
  constructor
  · intro before node
    rcases entered : inner.enter (before.1.1, before.2.enterNode node) node with
      ⟨after, _ | _ | _ | _⟩
    all_goals simp only [tracked, watched, entered]
  · intro before node
    rcases left : inner.leave (before.1.1, before.2) node with ⟨after, _ | _⟩
    all_goals simp only [tracked, watched, left]

section Sightings
variable {schema : Schema} {visits more : List Visit} {before after later : List Sighting}

/-- What was known is what follows from the way. -/
def Sighting.Right (schema : Schema) (sighting : Sighting) : Prop :=
  sighting.known = (Scope.along schema sighting.visit.way).knowledge

/-- Some of the visits were sighted, in their order, and what was known there is right. -/
def Sees (schema : Schema) (visits : List Visit) (before after : List Sighting) : Prop :=
  ∃ seen, after = before ++ seen ∧ (seen.map Sighting.visit).Sublist visits ∧
    ∀ sighting ∈ seen, sighting.Right schema

theorem Sees.nothing (visits : List Visit) (before : List Sighting) :
    Sees schema visits before before :=
  ⟨[], (List.append_nil before).symm, List.nil_sublist visits, List.forall_mem_nil _⟩

theorem Sees.trans (first : Sees schema visits before after)
    (second : Sees schema more after later) : Sees schema (visits ++ more) before later := by
  obtain ⟨seen, rfl, sublist, right⟩ := first
  obtain ⟨seen', rfl, sublist', right'⟩ := second
  refine ⟨seen ++ seen', List.append_assoc .., ?_, ?_⟩
  · rw [List.map_append]
    exact sublist.append sublist'
  · exact List.forall_mem_append.mpr ⟨right, right'⟩

theorem Sees.cut (first : Sees schema visits before after) (more : List Visit) :
    Sees schema (visits ++ more) before after := first.trans (.nothing more after)

theorem sees_noted (watch : Watch) (visit : Visit) {inspection : Inspection}
    (scope : inspection.scope = Scope.along schema visit.way) :
    Sees schema [visit] watch.sightings (watch.note visit inspection) := by
  refine ⟨_, rfl, List.Sublist.refl _, List.forall_mem_singleton.mpr ?_⟩
  exact congrArg Scope.knowledge scope

end Sightings

section Steps
variable {schema : Schema} {Allowed : Inner → Prop} {inner : Guide (Inner × Inspection)}
  {above : List Node} {node : Node} {state : (Inner × Watch) × Inspection}

/-- The nodes above are entered and not left, and all that is known is known from them. -/
structure Stands (schema : Schema) (Allowed : Inner → Prop) (above : List Node)
    (state : (Inner × Watch) × Inspection) : Prop where
  allowed : Allowed state.1.1
  entered : state.1.2.above = above
  asks : state.2.schema = schema
  knows : state.2.scope = Scope.along schema above

theorem Stands.enter (looks : LooksOn Allowed inner) (stands : Stands schema Allowed above state)
    (fits : (Scope.along schema above).Fits node) :
    let result := (tracked (watched inner)).enter state node
    Sees schema [⟨above ++ [node], .entering⟩] state.1.2.sightings result.1.1.2.sightings ∧
      (result.2 = .ok .proceed → Stands schema Allowed (above ++ [node]) result.1) ∧
      (result.2 = .ok .skip → Stands schema Allowed above result.1) := by
  have inside : (state.2.enterNode node).scope = Scope.along schema (above ++ [node]) := by
    rw [Scope.along_append, enterNode, stands.knows, stands.asks]
  have noted := sees_noted state.1.2 ⟨above ++ [node], .entering⟩ inside
  obtain ⟨allowed, same, scope⟩ :=
    looks.enter (state.1.1, state.2.enterNode node) node stands.allowed
  have asks := same.trans stands.asks
  have knows := scope.trans inside
  rcases entered : inner.enter (state.1.1, state.2.enterNode node) node with
    ⟨after, fault | _ | _ | _⟩
  all_goals
    rw [entered] at allowed asks knows
    simp only [tracked, watched, entered, stands.entered]
    refine ⟨noted, ?_⟩
  · constructor
    all_goals rintro ⟨⟩
  · constructor
    · exact fun _ => ⟨allowed rfl, rfl, asks, knows⟩
    · simp only [halt]
      split <;> rintro ⟨⟩
  · constructor
    · simp only [halt]
      split <;> rintro ⟨⟩
    · -- A node that is skipped is left at once.
      refine fun _ => ⟨allowed rfl, rfl, asks, ?_⟩
      rw [leaveNode, knows, Scope.along_append]
      exact fits.leave_enter schema
  · constructor
    all_goals
      simp only [halt]
      split <;> rintro ⟨⟩

theorem finished_of_halt {inspection : Inspection} {action : Action}
    (finished : Ending.ofAnswer (.ok (inspection.halt action)) = .finished) :
    Ending.ofAnswer (.ok action) = .finished := by
  rw [halt] at finished
  split at finished
  · cases finished
  · exact finished

theorem Stands.leave (looks : LooksOn Allowed inner)
    (stands : Stands schema Allowed (above ++ [node]) state)
    (fits : (Scope.along schema above).Fits node) :
    let result := (tracked (watched inner)).leave state node
    Sees schema [⟨above ++ [node], .leaving⟩] state.1.2.sightings result.1.1.2.sightings ∧
      (Ending.ofAnswer result.2 = .finished → Stands schema Allowed above result.1) := by
  have noted := sees_noted state.1.2 ⟨above ++ [node], .leaving⟩ stands.knows
  obtain ⟨allowed, same, scope⟩ := looks.leave (state.1.1, state.2) node stands.allowed
  have asks := same.trans stands.asks
  have knows := scope.trans stands.knows
  rcases left : inner.leave (state.1.1, state.2) node with ⟨after, fault | action⟩
  all_goals
    rw [left] at allowed asks knows
    simp only [tracked, watched, left, stands.entered, List.dropLast_concat]
    refine ⟨noted, ?_⟩
  · rintro ⟨⟩
  · intro finished
    refine ⟨allowed (finished_of_halt finished), rfl, asks, ?_⟩
    rw [leaveNode, knows, Scope.along_append]
    exact fits.leave_enter schema

end Steps

section Tours
variable {schema : Schema} {Allowed : Inner → Prop} {inner : Guide (Inner × Inspection)}
  {above : List Node} {state : (Inner × Watch) × Inspection}

/-- A tour of what is below a way, from a state that stands at its end. -/
structure Toured (schema : Schema) (Allowed : Inner → Prop) (above : List Node)
    (visits : List Visit) (before : (Inner × Watch) × Inspection)
    (result : ((Inner × Watch) × Inspection) × Ending) : Prop where
  sees : Sees schema visits before.1.2.sightings result.1.1.2.sightings
  finished : result.2 = .finished → Stands schema Allowed above result.1

def ToursRight (schema : Schema) (Allowed : Inner → Prop) (inner : Guide (Inner × Inspection))
    (node : Node) : Prop :=
  ∀ above state, Stands schema Allowed above state → (Scope.along schema above).Fits node →
    Toured schema Allowed above (node.visits above) state
      ((tracked (watched inner)).tourTree state node.tree)

theorem toured_nodes (nodes : List Node)
    (each : ∀ node ∈ nodes, ToursRight schema Allowed inner node)
    (stands : Stands schema Allowed above state)
    (fits : ∀ node ∈ nodes, (Scope.along schema above).Fits node) :
    Toured schema Allowed above (nodes.flatMap (Node.visits above)) state
      ((tracked (watched inner)).tourTrees state (nodes.map Node.tree)) := by
  induction nodes generalizing state with
  | nil => exact ⟨.nothing _ _, fun _ => stands⟩
  | cons node rest ih =>
      obtain ⟨here, later⟩ := List.forall_mem_cons.mp each
      obtain ⟨fit, fits⟩ := List.forall_mem_cons.mp fits
      have first := here above state stands fit
      rw [List.flatMap_cons, List.map_cons, Guide.tourTrees]
      generalize (tracked (watched inner)).tourTree state node.tree = result at first ⊢
      rcases result with ⟨next, _ | _ | _⟩
      · have second := ih later (first.finished rfl) fits
        exact ⟨first.sees.trans second.sees, second.finished⟩
      · exact ⟨first.sees.cut _, nofun⟩
      · exact ⟨first.sees.cut _, nofun⟩

theorem tours_right (looks : LooksOn Allowed inner) (node : Node) :
    ToursRight schema Allowed inner node := by
  induction node using Node.below_induction with
  | step node ih =>
      intro above state stands fits
      -- The scope at the end of the way is what the children start from, and what a tour of
      -- all of them comes back to.
      have below (next) (stands : Stands schema Allowed (above ++ [node]) next) :=
        toured_nodes node.children ih stands fun child member => by
          rw [Scope.along_append]
          exact fits.child schema member
      rw [Node.tree_eq, Node.visits_eq, Guide.tourTree]
      cases node.flaw? with
      | some flaw => exact ⟨.nothing _ _, nofun⟩
      | none =>
          obtain ⟨entering, goes, skips⟩ := stands.enter looks fits
          dsimp only
          generalize (tracked (watched inner)).enter state node = result
            at entering goes skips ⊢
          rcases result with ⟨next, fault | _ | _ | _⟩
          · exact ⟨entering.cut _, nofun⟩
          · have inside := below next (goes rfl)
            dsimp only
            generalize (tracked (watched inner)).tourTrees next (node.children.map Node.tree) =
              result at inside ⊢
            rcases result with ⟨last, _ | _ | _⟩
            · obtain ⟨leaving, left⟩ := (inside.finished rfl).leave looks fits
              dsimp only
              rw [Guide.end_after_eq]
              exact ⟨entering.trans (inside.sees.trans leaving), left⟩
            · exact ⟨entering.trans (inside.sees.cut _), nofun⟩
            · exact ⟨entering.trans (inside.sees.cut _), nofun⟩
          · exact ⟨entering.cut _, fun _ => skips rfl⟩
          · exact ⟨entering.cut _, nofun⟩

/-- A party of impartial rules looks on, however it stands. -/
theorem party_looks_on :
    LooksOn (fun party => ∃ depth attendees, party = board.party depth attendees)
      Party.guide := by
  constructor
  · rintro ⟨party, inspection⟩ node ⟨depth, attendees, rfl⟩
    obtain ⟨answer, entered, _⟩ := board.party_enter depth attendees inspection node
    rw [entered]
    have view := report_all_view inspection
      (Attendee.gather depth inspection.view ⟨.entering, node⟩ attendees).reports
    exact ⟨fun _ => ⟨_, _, rfl⟩, congrArg View.schema view, congrArg View.scope view⟩
  · rintro ⟨party, inspection⟩ node ⟨depth, attendees, rfl⟩
    obtain ⟨party, answer, left, ending, finished⟩ :=
      board.party_leave depth attendees inspection node
    rw [left]
    have view := report_all_view inspection
      (Attendee.gather depth inspection.view ⟨.leaving, node⟩ attendees).reports
    refine ⟨fun goes => ⟨_, _, finished (ending.symm.trans goes)⟩, ?_, ?_⟩
    · exact congrArg View.schema view
    · exact congrArg View.scope view

/-- Whatever a tour of a document has entered, skipped and left before, a guide finds at a
node what the nodes on the way to it say. -/
theorem known_from_ancestors (looks : LooksOn Allowed inner) {state : Inner}
    (allowed : Allowed state) (schema : Schema) (document : Document) (limit? : Option Nat) :
    let root := Node.document document
    let fresh := start schema document limit?
    let result := (tracked (watched inner)).tour ((state, ⟨[], []⟩), fresh) root
    (tracked inner).tour (state, fresh) root = ((result.1.1.1, result.1.2), result.2) ∧
      (result.1.1.2.sightings.map Sighting.visit).Sublist (root.visits []) ∧
      ∀ sighting ∈ result.1.1.2.sightings,
        sighting.known = (Scope.along schema sighting.visit.way).knowledge := by
  intro root fresh result
  have stands : Stands schema Allowed [] ((state, ⟨[], []⟩), fresh) := ⟨allowed, rfl, rfl, rfl⟩
  obtain ⟨seen, all, sublist, right⟩ :=
    (tours_right looks root [] _ stands (Scope.empty_fits root)).sees
  have same : result.1.1.2.sightings = seen := all
  rw [same]
  exact ⟨(watched_carries inner).tour_tree ((state, ⟨[], []⟩), fresh) root.tree, sublist, right⟩

/-- A guide that skips every field still sees the second of two fields as if it were the
only one. The specified rules, which look on too, are told the same. -/
theorem known_beside_skipped_field :
    let inner : Guide (Unit × Inspection) :=
      ⟨fun state node => (state, .ok (if node.kind = .field then .skip else .proceed)),
        fun state _ => (state, .ok .proceed)⟩
    let field (name : String) : Selection :=
      .field ⟨.start, none, name, [], [⟨.start, "skip", []⟩], some ⟨.start, []⟩⟩
    let set : SelectionSet := ⟨.start, [field "hello", field "name"]⟩
    let document : Document := ⟨[.operation ⟨.start, .query, none, [], [], set⟩]⟩
    let query : SchemaType := .object ⟨.written .start, none, "Query", [],
      [⟨.written .start, none, "name", [], .named "Query" true⟩]⟩
    let schema : Schema := ⟨builtinTypes ++ [query], builtinRules, [], "Query", none, none⟩
    let root := Node.document document
    let fresh := start schema document none
    let result := (tracked (watched inner)).tour (((), ⟨[], []⟩), fresh) root
    let rules := Party.ofVisitors specifiedRules
    let told := (tracked (watched Party.guide)).tour ((rules, ⟨[], []⟩), fresh) root
    LooksOn (fun _ => True) inner ∧
      (tracked inner).tour ((), fresh) root = ((result.1.1.1, result.1.2), result.2) ∧
      (result.1.1.2.sightings.map Sighting.visit).Sublist (root.visits []) ∧
      (∀ sighting ∈ result.1.1.2.sightings,
        sighting.known = (Scope.along schema sighting.visit.way).knowledge) ∧
      result.1.1.2.sightings.map (fun sighting => sighting.known.field?.map OutputField.name) =
        [none, none, none, none, some "name", none, none, none] ∧
      ∀ sighting ∈ told.1.1.2.sightings,
        sighting.known = (Scope.along schema sighting.visit.way).knowledge := by
  intro inner field set document query schema root fresh result rules told
  have looks : LooksOn (fun _ => True) inner :=
    ⟨fun _ _ _ => ⟨fun _ => trivial, rfl, rfl⟩, fun _ _ _ => ⟨fun _ => trivial, rfl, rfl⟩⟩
  obtain ⟨same, sublist, right⟩ := known_from_ancestors looks trivial schema document none
  have newcomers : ∃ depth attendees, rules = board.party depth attendees :=
    ⟨0, _, party_of_rules specified_rules_impartial⟩
  obtain ⟨_, _, taught⟩ := known_from_ancestors party_looks_on newcomers schema document none
  refine ⟨looks, same, sublist, right, ?_, taught⟩
  -- A tree is not made by structural recursion, so it is written out before it is run.
  simp only [result, Guide.tour, root, document, set, field, Node.tree_eq, Node.children,
    Node.ofDefinition, Node.ofSelection, List.map_nil, List.map_cons, List.nil_append,
    List.cons_append, Option.map_some, Option.toList_some]
  decide +kernel

end Tours

end Inspection
end Watching
end GraphQL
