import GraphQL.Proofs.LocalRules
import GraphQL.Proofs.RuleIndependence
import GraphQL.Proofs.UnusedFragments
import Mathlib.Data.Multiset.Bind

/-! What the specified rules find together, told rule by rule. The local rules find it in
one definition after the other, and do not look at the definitions around it except for
the names of the fragments among them; to this come the fragments that are not used. -/
namespace GraphQL

open Inspection Attendee

section Gathering
universe u v

theorem flatMap_swap {α : Type u} {β : Type v} {γ : Type} (items : List α) (more : List β)
    (f : α → β → List γ) :
    (items.flatMap fun item => more.flatMap (f item)).Perm
      (more.flatMap fun other => items.flatMap fun item => f item other) := by
  have swapped := Multiset.bind_bind (items : Multiset α) (more : Multiset β)
    (f := fun item other => (f item other : Multiset γ))
  simpa only [Multiset.coe_bind, Multiset.coe_eq_coe] using swapped

variable (schema : Schema) {document : Document}

/-- What rules find together is what they find one after the other, in another order. -/
theorem found_rule_by_rule {rules : List Rule} (intact : (Node.document document).Intact)
    (impartial : ∀ rule ∈ rules, rule.Impartial) (calm : ∀ rule ∈ rules, rule.Calm) :
    ∃ found, validate schema document rules = .ok found ∧
      found.Perm (rules.flatMap fun rule =>
        rule.reporter.solo 0 ⟨schema, document, .empty⟩ (Node.document document).events) := by
  let events := (Node.document document).events
  let timeline := View.along ⟨schema, document, .empty⟩ events
  obtain ⟨length, _, together, each⟩ := inspection_of_calm schema intact impartial calm
  refine ⟨_, together, ?_⟩
  have alone : ∀ rule ∈ rules, (List.range events.length).flatMap (fun time =>
      (meet 0 [rule.reporter.newcomer] timeline).entries.getD time []) =
        rule.reporter.solo 0 ⟨schema, document, .empty⟩ events := by
    intro rule member
    obtain ⟨length, _⟩ := inspection_of_calm schema intact
      (List.forall_mem_singleton.mpr (impartial rule member))
      (List.forall_mem_singleton.mpr (calm rule member))
    rw [Reporter.solo, Minutes.reports, flatten_eq_range]
    exact congrArg (fun count => (List.range count).flatMap _) length.symm
  rw [flatten_eq_range, length, ← List.flatMap_congr alone,
    List.flatMap_congr fun time _ => each time]
  exact flatMap_swap ..

theorem found_by_rule (intact : (Node.document document).Intact) {rule : Rule}
    (member : rule ∈ specifiedRules) :
    validate schema document [rule] = .ok
      (rule.reporter.solo 0 ⟨schema, document, .empty⟩ (Node.document document).events) := by
  obtain ⟨_, _, found, _⟩ := inspection_of_calm schema intact
    (List.forall_mem_singleton.mpr (specified_rules_impartial rule member))
    (List.forall_mem_singleton.mpr (specified_rules_calm rule member))
  exact found

end Gathering

/-! What the rules make of a document, definition by definition. -/
section Documents
variable {document document' : Document}

/-- A local rule finds the same in a definition wherever the same of the fragments are
defined that are spread in it. -/
theorem Visitor.Local.solo_definition {rule : Rule} (own : rule.Local) (schema : Schema)
    {definition : Definition}
    (same : ∀ event ∈ (Node.definition definition).events, ∀ spread : FragmentSpread,
      event.node = .selection (.spread spread) → (document.fragment? spread.fragment).isSome =
        (document'.fragment? spread.fragment).isSome) :
    rule.reporter.solo 1 ⟨schema, document, .empty⟩ (Node.definition definition).events =
      rule.reporter.solo 1 ⟨schema, document', .empty⟩ (Node.definition definition).events := by
  apply own.solo_alike
  refine ⟨rfl, .refl _, fun spread member => ?_⟩
  obtain ⟨event, inside, named⟩ := List.mem_map.mp member
  exact same event inside spread named

/-- What the local rules find in a document. -/
def localFindings (schema : Schema) (document : Document) : List Finding :=
  localRules.flatMap fun rule => document.definitions.flatMap fun definition =>
    rule.reporter.solo 1 ⟨schema, document, .empty⟩ (Node.definition definition).events

theorem local_findings_inner (schema : Schema) (document : Document) :
    Inner (localFindings schema document) := by
  intro finding member
  obtain ⟨rule, listed, found⟩ := List.mem_flatMap.mp member
  obtain ⟨definition, _, found⟩ := List.mem_flatMap.mp found
  exact (local_rules_local rule listed).reports_inner _ _ _ _ finding found

theorem found_by_specified_rules (schema : Schema) (intact : (Node.document document).Intact) :
    ∃ found, validate schema document specifiedRules = .ok found ∧
      found.Perm (localFindings schema document ++ document.unused) := by
  obtain ⟨found, validated, perm⟩ :=
    found_rule_by_rule schema intact specified_rules_impartial specified_rules_calm
  refine ⟨found, validated, perm.trans (.of_eq ?_)⟩
  rw [specified_rules_eq, List.flatMap_append, List.flatMap_singleton, unused_in_document,
    localFindings]
  exact congrArg (· ++ _) (List.flatMap_congr fun rule member =>
    (local_rules_local rule member).solo_document schema document)

theorem Node.Intact.definitions_ne_nil (intact : (Node.document document).Intact) :
    document.definitions ≠ [] := by
  intro none
  have flawless := intact.root
  simp [Node.flaw?, none] at flawless

theorem Node.Intact.fewer (intact : (Node.document document).Intact)
    (fewer : ∀ definition ∈ document'.definitions, definition ∈ document.definitions)
    (some : document'.definitions ≠ []) : (Node.document document').Intact := by
  apply Node.Intact.of_children (by simp [Node.flaw?, some])
  intro child below
  obtain ⟨definition, own, rfl⟩ := List.mem_map.mp below
  exact intact.child (List.mem_map_of_mem (fewer definition own))

end Documents
end GraphQL
