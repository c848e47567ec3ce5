import GraphQL.Proofs.DocumentNodes
import GraphQL.Proofs.RuleFindings

/-! Which names of types are reported as unknown. The rule about them skips what is written
in the definitions of composite and of input types, and hears again of what comes after
such a definition. So what it reports can be read off a listing of all nodes, each with the
nodes that it lies in: the unknown names that do not lie in such a definition. -/
namespace GraphQL

open Inspection Attendee

section Occurrences

/-- A node of a document and the nodes that it lies in, the innermost of them first. -/
structure Occurrence where
  node : Node
  above : List Node

namespace Tree

mutual

def occurrences (above : List Node) : Tree Node → List Occurrence
  | .node root branches => ⟨root, above⟩ :: occurrencesAll (root :: above) branches

def occurrencesAll (above : List Node) : List (Tree Node) → List Occurrence
  | [] => []
  | tree :: rest => tree.occurrences above ++ occurrencesAll above rest

end

theorem occurrences_all_eq (above : List Node) (trees : List (Tree Node)) :
    occurrencesAll above trees = trees.flatMap (occurrences above) := by
  induction trees with
  | nil => rfl
  | cons tree rest ih => rw [occurrencesAll, ih, List.flatMap_cons]

end Tree

namespace Node

/-- The nodes at and below a node, each before those below it. -/
def occurrences (above : List Node) (node : Node) : List Occurrence := node.tree.occurrences above

theorem occurrences_eq (above : List Node) (node : Node) :
    node.occurrences above =
      ⟨node, above⟩ :: node.children.flatMap (occurrences (node :: above)) := by
  rw [occurrences, tree_eq, Tree.occurrences, Tree.occurrences_all_eq, List.flatMap_map]
  rfl

theorem occurrences_nodes (node : Node) (above : List Node) :
    (node.occurrences above).map Occurrence.node = node.nodes := by
  induction node using below_induction generalizing above with
  | step node ih =>
      rw [occurrences_eq, nodes_eq, List.map_cons, List.map_flatMap]
      exact congrArg (node :: ·) (List.flatMap_congr fun child member => ih child member _)

end Node

/-- The nodes above lead from parent to parent up to a root. -/
structure Occurrence.LiesIn (occurrence : Occurrence) (root : Node) : Prop where
  parents : (occurrence.node :: occurrence.above).IsChain fun child parent =>
    child ∈ parent.children
  root : (occurrence.node :: occurrence.above).getLast? = some root

theorem Occurrence.LiesIn.below {node root : Node} {above : List Node}
    (lies : Occurrence.LiesIn ⟨node, above⟩ root) :
    ∀ occurrence ∈ node.occurrences above, occurrence.LiesIn root := by
  induction node using Node.below_induction generalizing above with
  | step node ih =>
      intro occurrence member
      rw [Node.occurrences_eq] at member
      rcases List.mem_cons.mp member with rfl | deeper
      · exact lies
      · obtain ⟨child, own, inside⟩ := List.mem_flatMap.mp deeper
        have child' : Occurrence.LiesIn ⟨child, node :: above⟩ root :=
          ⟨.cons_cons own lies.parents, lies.root⟩
        exact ih child own child' occurrence inside

theorem above_kept {node outer : Node} {above : List Node} (member : outer ∈ above) :
    ∀ occurrence ∈ node.occurrences above, outer ∈ occurrence.above := by
  induction node using Node.below_induction generalizing above with
  | step node ih =>
      intro occurrence listed
      rw [Node.occurrences_eq] at listed
      rcases List.mem_cons.mp listed with rfl | deeper
      · exact member
      · obtain ⟨child, own, inside⟩ := List.mem_flatMap.mp deeper
        exact ih child own (List.mem_cons_of_mem node member) occurrence inside

end Occurrences

section UnknownNames

def Node.composesType : Node → Bool
  | .definition (.object _) | .definition (.interface _) | .definition (.union _)
  | .definition (.input _) => true
  | _ => false

def Node.unknownType? (schema : Schema) : Node → Option Finding
  | .type (.named named) =>
      if (schema.type? named.name).isSome then none
      else
        let names := schema.types.map SchemaType.name
        some (.about (Rules.unknownType named.name (Suggestion.closeOptions named.name names))
          (.type (.named named)))
  | _ => none

/-- Nothing is reported of nodes in the definitions of such types. -/
def Occurrence.unknownType? (schema : Schema) (occurrence : Occurrence) : Option Finding :=
  if occurrence.above.any Node.composesType then none
  else occurrence.node.unknownType? schema

variable {schema : Schema} {node : Node} {above : List Node}

theorem composed_unreported (composes : node.composesType = true) :
    (node.occurrences above).filterMap (Occurrence.unknownType? schema) = [] := by
  rw [List.filterMap_eq_nil_iff, Node.occurrences_eq]
  intro occurrence member
  rcases List.mem_cons.mp member with rfl | deeper
  · -- The definition itself is no name.
    have unnamed : node.unknownType? schema = none := by
      rw [Node.unknownType?]
      rintro type rfl
      cases composes
    rw [Occurrence.unknownType?, unnamed, ite_self]
  · obtain ⟨child, _, inside⟩ := List.mem_flatMap.mp deeper
    have kept := above_kept List.mem_cons_self occurrence inside
    exact if_pos (List.any_eq_true.mpr ⟨node, kept, composes⟩)

open Rules

theorem composed_skipped (composes : node.composesType = true) (view : View) :
    knownTypeNames.reporter.react view ⟨.entering, node⟩ =
      (knownTypeNames.reporter, [], .ok .skip) := by
  cases node with
  | definition d =>
      cases d with
      | object _ | interface _ | union _ | input _ => rfl
      | _ => cases composes
  | _ => cases composes

theorem other_reported (other : node.composesType = false) (view : View) :
    knownTypeNames.reporter.react view ⟨.entering, node⟩ =
      (knownTypeNames.reporter, (node.unknownType? view.schema).toList, .ok .proceed) := by
  cases node with
  | type type =>
      cases type with
      | named type =>
          have told : knownTypeNames.reporter.react view ⟨.entering, .type (.named type)⟩ =
              (knownTypeNames.reporter,
                (checkTypeName (ofView view) (.type (.named type))).findings, .ok .proceed) := rfl
          rw [told, Node.unknownType?]
          simp only [checkTypeName, ofView]
          cases view.schema.type? type.name with
          | some defined => rfl
          | none => rfl
      | _ => rfl
  | definition d =>
      cases d with
      | object _ | interface _ | union _ | input _ => cases other
      | _ => rfl
  | selection s => cases s <;> rfl
  | value v =>
      rcases v with ⟨_, form⟩
      cases form <;> rfl
  | _ => rfl

theorem unknown_below (outside : above.any Node.composesType = false) (depth : Nat)
    (view : View) :
    knownTypeNames.reporter.solo depth view node.events =
      (node.occurrences above).filterMap (Occurrence.unknownType? view.schema) := by
  have own : knownTypeNames.Local := local_rules_local _ (by simp [localRules])
  induction node using Node.below_induction generalizing above depth view with
  | step node ih =>
      cases composes : node.composesType with
      | true =>
          have skipped := composed_skipped composes (view.during ⟨.entering, node⟩)
          have found := Reporter.solo_skipping skipped depth []
          rw [List.append_nil] at found
          rw [composed_unreported composes, found]
          rfl
      | false =>
          have outside' : (node :: above).any Node.composesType = false := by
            rw [List.any_cons, composes, outside, Bool.or_false]
          have here : Occurrence.unknownType? view.schema ⟨node, above⟩ =
              node.unknownType? view.schema := if_neg (Bool.eq_false_iff.mp outside)
          rw [own.solo_entered rfl (other_reported composes _), Node.occurrences_eq,
            List.filterMap_eq_flatMap_toList, List.flatMap_cons, here, List.flatMap_assoc]
          refine congrArg (_ ++ ·) (List.flatMap_congr fun child member => ?_)
          rw [← List.filterMap_eq_flatMap_toList]
          exact ih child member outside' _ _

end UnknownNames

section Validation
open Rules

/-- The rule about unknown types reports exactly the names of types that are not defined and
do not lie in the definition of an object type, an interface type, a union type or an input
type: one finding for each occurrence, in the order in which they are written. -/
theorem unknown_types_are_reported (schema : Schema) {document : Document}
    (sound : (Node.document document).Sound) :
    let occurrences := (Node.document document).occurrences []
    occurrences.map Occurrence.node = document.nodes ∧
      (∀ occurrence ∈ occurrences, occurrence.LiesIn (.document document)) ∧
      validate schema document [knownTypeNames] =
        .ok (occurrences.filterMap (Occurrence.unknownType? schema)) := by
  intro occurrences
  have member : knownTypeNames ∈ specifiedRules := by simp [specifiedRules]
  have root : Occurrence.LiesIn ⟨.document document, []⟩ (.document document) :=
    ⟨.singleton _, rfl⟩
  have found : knownTypeNames.reporter.solo 0 ⟨schema, document, .empty⟩
      (Node.document document).events = occurrences.filterMap (Occurrence.unknownType? schema) :=
    unknown_below rfl 0 _
  exact ⟨Node.occurrences_nodes _ [], root.below,
    (found_by_rule schema sound.intact member).trans (congrArg Except.ok found)⟩

/-- The definition of an object type is skipped, and then names are reported again. -/
theorem unknown_types_behind_an_object_type :
    let schema : Schema :=
      ⟨builtinTypes ++ [.object ⟨.builtin, none, "Query", [], []⟩], builtinRules, [], "Query",
        none, none⟩
    let skipped : NamedType := ⟨.start, "Pet"⟩
    let first : NamedType := ⟨.start, "Absent"⟩
    let second : NamedType := ⟨.start, "Missing"⟩
    let parameter : InputValueDefinition :=
      ⟨.start, none, "a", .list .start (.named first), none, []⟩
    let taken : VariableDefinition := ⟨.start, "b", .named second, none⟩
    let field : Selection := .field ⟨.start, none, "c", [], [], none⟩
    let document : Document :=
      ⟨[.object ⟨.start, none, "Query", [skipped], [],
          [⟨.start, none, "c", [parameter], .named skipped, []⟩]⟩,
        .directive ⟨.start, none, "d", [parameter], false, []⟩,
        .operation ⟨.start, .query, none, [taken], [], ⟨.start, [field]⟩⟩]⟩
    let names := schema.types.map SchemaType.name
    let unknown (type : NamedType) : Finding :=
      .about (unknownType type.name (Suggestion.closeOptions type.name names))
        (.type (.named type))
    (Node.document document).Sound ∧
      validate schema document [knownTypeNames] = .ok [unknown first, unknown second] := by
  intro schema skipped first second parameter taken field document names unknown
  have sound : (Node.document document).Sound := by
    simp [document, field, parameter, taken, Node.Sound, Node.listing, Node.tree_eq,
      Node.children, Node.ofDefinition, Node.ofSelection, Node.ofTypeRef, Tree.listing,
      Tree.listingAll, Node.flaw?]
  have absent : schema.type? first.name = none := by decide
  have missing : schema.type? second.name = none := by decide
  refine ⟨sound, (unknown_types_are_reported schema sound).2.2.trans ?_⟩
  simp [document, field, parameter, taken, Node.occurrences_eq, Node.children,
    Node.ofDefinition, Node.ofSelection, Node.ofTypeRef, Occurrence.unknownType?,
    Node.unknownType?, Node.composesType, absent, missing, unknown, names]

end Validation
end GraphQL
