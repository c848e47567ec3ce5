import GraphQL.Proofs.ExecutableNodes
import GraphQL.Proofs.FragmentReach
import GraphQL.Proofs.SteadyRules

/-! The rule about unused fragments. It sees the definitions of a document without looking
into them, and when it leaves the document it reports the fragments that no operation uses. -/
namespace GraphQL

open Inspection Attendee

section Search
open Rules

/-- The rule with what it has seen. -/
def Rules.Seen.reporter (seen : Seen) : Reporter View Finding :=
  { noUnusedFragments.reporter with state := seen }

/-- Only operations, fragments and the whole document are of interest to the rule. -/
theorem deaf_to_type_system (seen : Seen) {node : Node} (own : node.TypeSystem) :
    seen.reporter.Deaf node.events := by
  intro event member view
  have typed := Node.all_events Node.type_system_child node own event member
  rcases event with ⟨phase, node⟩
  cases node with
  | definition d =>
      cases d with
      | operation _ | fragment _ => cases typed
      | _ => cases phase <;> rfl
  | document _ | selection _ => cases typed
  | value v =>
      rcases v with ⟨_, form⟩
      cases phase <;> cases form <;> rfl
  | type t => cases phase <;> cases t <;> rfl
  | _ => cases phase <;> rfl

theorem skips_executable (seen : Seen) {definition : Definition}
    (executable : definition.isExecutable = true) (view : View) :
    seen.reporter.react view ⟨.entering, .definition definition⟩ =
      ((see seen (.definition definition)).reporter, [], .ok .skip) := by
  cases definition with
  | operation d => rfl
  | fragment d => rfl
  | _ => cases executable

theorem seen_definition (definition : Definition) (seen : Seen) (depth : Nat) (view : View)
    (more : List Event) :
    seen.reporter.solo depth view ((Node.definition definition).events ++ more) =
      (see seen (.definition definition)).reporter.solo depth
        (view.passed (Node.definition definition).events) more := by
  cases own : definition.isExecutable with
  | true => exact Reporter.solo_skipping (skips_executable seen own _) depth more
  | false =>
      have same : see seen (.definition definition) = seen := by
        cases definition with
        | operation _ | fragment _ => cases own
        | _ => rfl
      have deaf : seen.reporter.Deaf (Node.definition definition).events :=
        deaf_to_type_system seen own
      rw [same]
      exact deaf.solo_node depth view more

theorem seen_definitions (definitions : List Definition) (seen : Seen) (depth : Nat)
    (view : View) (more : List Event) :
    let nodes := definitions.map Node.definition
    seen.reporter.solo depth view (nodes.flatMap Node.events ++ more) =
      (nodes.foldl see seen).reporter.solo depth
        (view.passed (nodes.flatMap Node.events)) more := by
  induction definitions generalizing seen view with
  | nil => rfl
  | cons definition rest ih =>
      dsimp only
      rw [List.map_cons, List.flatMap_cons, List.append_assoc, View.passed_append,
        seen_definition]
      exact ih _ _

theorem see_all (definitions : List Definition) (seen : Seen) :
    (definitions.map Node.definition).foldl see seen =
      ⟨seen.operations ++ definitions.filterMap Definition.operation?,
        seen.fragments ++ definitions.filterMap Definition.fragment?⟩ := by
  induction definitions generalizing seen with
  | nil => simp
  | cons definition rest ih =>
      rw [List.map_cons, List.foldl_cons, ih]
      cases definition with
      | operation d => simp [see, Definition.operation?, List.filterMap_cons, Definition.fragment?]
      | fragment d => simp [see, Definition.operation?, List.filterMap_cons, Definition.fragment?]
      | _ => rfl

/-- What the rule makes of all operations and fragments of a document. -/
def Document.unused (document : Document) : List Finding :=
  unusedFindings document ⟨document.operations, document.fragments⟩

theorem unused_nil_iff (document : Document) :
    document.unused = [] ↔
      ∀ fragment ∈ document.fragments, fragment.name ∈ usedNames document document.operations := by
  simp [Document.unused, unusedFindings]

theorem mem_used_names (document : Document) (operations : List Operation) (name : String) :
    name ∈ usedNames document operations ↔ ∃ operation ∈ operations,
      document.Uses operation.selectionSet name ∧ (document.fragment? name).isSome := by
  simp only [usedNames, List.map_flatMap, List.mem_flatMap, document.mem_reached]

theorem fragment_defined_iff (document : Document) (name : String) :
    (document.fragment? name).isSome ↔ ∃ fragment ∈ document.fragments, fragment.name = name := by
  simp [Document.fragment?]

/-- When the document is left the rule tells what it makes of what it has seen. -/
theorem leave_document (seen : Seen) (view : View) (document : Document) :
    seen.reporter.solo 1 view [⟨.leaving, .document document⟩] =
      unusedFindings view.document seen := by
  have reacted : seen.reporter.react view ⟨.leaving, .document document⟩ =
      (seen.reporter, ((ofView view).reportAll (unusedFindings view.document seen)).findings,
        .ok .proceed) := rfl
  rw [of_view_report_all] at reacted
  rw [Reporter.solo_leaving reacted (by decide)]
  exact List.append_nil _

theorem unused_in_document (schema : Schema) (document : Document) :
    noUnusedFragments.reporter.solo 0 ⟨schema, document, .empty⟩
        (Node.document document).events = document.unused := by
  let view : View := ⟨schema, document, .empty⟩
  have passed := View.passed_nodes (document.definitions.map Node.definition)
    (fun child _ view => View.passed_node child view) view
  -- Nothing is done when the document is entered; the definitions are seen one by one.
  have entered : noUnusedFragments.reporter.react (view.during ⟨.entering, .document document⟩)
      ⟨.entering, .document document⟩ = ((Seen.mk [] []).reporter, [], .ok .proceed) := rfl
  rw [Node.events_eq, Reporter.solo_proceeding entered, List.nil_append]
  apply (seen_definitions document.definitions ⟨[], []⟩ 1 view _).trans
  rw [see_all, leave_document, passed.document]
  rfl

theorem no_unused_fragments_reports_nil (schema : Schema) (document : Document) :
    noUnusedFragments.reporter.solo 0 ⟨schema, document, .empty⟩
        (Node.document document).events = [] ↔
      ∀ fragment ∈ document.fragments, ∃ operation ∈ document.operations,
        document.Uses operation.selectionSet fragment.name := by
  have known : ∀ fragment ∈ document.fragments, (document.fragment? fragment.name).isSome :=
    fun fragment member => (fragment_defined_iff document _).mpr ⟨fragment, member, rfl⟩
  rw [unused_in_document, unused_nil_iff]
  refine forall₂_congr fun fragment member => (mem_used_names document _ _).trans ?_
  refine exists_congr fun operation => and_congr_right fun _ => ?_
  exact and_iff_left (known fragment member)

end Search
end GraphQL
