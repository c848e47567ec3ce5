import GraphQL.Proofs.FindingOrder
import Mathlib.Data.List.Flatten

/-! A document without its unused fragments. What is left is closed under spreads, so the
fragments that are left are still used, nothing that is spread has become unknown, and
nothing is found that was not found before. -/
namespace GraphQL

open Inspection Rules

/-! A condition on selections, said of a node and all that is below it. -/
section Selections

/-- All selections that the node is made of are good. -/
def Node.Selects (good : Selection → Prop) : Node → Prop
  | .document _ => False
  | .definition (.operation d) => ∀ inner ∈ d.selectionSet.all, good inner
  | .definition (.fragment d) => ∀ inner ∈ d.selectionSet.all, good inner
  | .selectionSet set => ∀ inner ∈ set.all, good inner
  | .selection s => good s ∧ ∀ nested, s.nested? = some nested → ∀ inner ∈ nested.all, good inner
  | _ => True

variable {good : Selection → Prop}

theorem Node.TypeSystem.selects {node : Node} (own : node.TypeSystem) : node.Selects good := by
  cases node with
  | definition d =>
      cases d with
      | operation _ | fragment _ => cases own
      | _ => trivial
  | document _ | selectionSet _ | selection _ => cases own
  | _ => trivial

theorem selects_child (node : Node) (selects : node.Selects good) :
    ∀ child ∈ node.children, child.Selects good := by
  intro child member
  cases node with
  | document d => cases selects
  | definition d =>
      cases d with
      | operation d =>
          simp only [Node.children, Node.ofDefinition, List.mem_append, List.mem_map,
            List.mem_singleton] at member
          rcases member with (⟨_, _, rfl⟩ | ⟨_, _, rfl⟩) | rfl
          · trivial
          · trivial
          · exact selects
      | fragment d =>
          simp only [Node.children, Node.ofDefinition, List.cons_append, List.mem_cons,
            List.mem_append, List.mem_map, List.not_mem_nil, or_false] at member
          rcases member with rfl | ⟨_, _, rfl⟩ | rfl
          · trivial
          · trivial
          · exact selects
      | _ =>
          refine (Node.type_system_child _ ?_ child member).selects
          exact rfl
  | variableDefinition d =>
      simp only [Node.children, List.mem_cons, Option.mem_toList,
        Option.map_eq_some_iff] at member
      rcases member with rfl | ⟨_, _, rfl⟩ <;> trivial
  | selectionSet set =>
      obtain ⟨selection, own, rfl⟩ := List.mem_map.mp member
      refine ⟨selects selection (SelectionSet.mem_all.mpr (.inl own)), ?_⟩
      intro nested found inner deeper
      have inside : nested ∈ set.nested := List.mem_filterMap.mpr ⟨selection, own, found⟩
      exact selects inner (SelectionSet.mem_all.mpr (.inr ⟨nested, inside, deeper⟩))
  | selection s =>
      cases s with
      | field f =>
          simp only [Node.children, Node.ofSelection, List.mem_append, List.mem_map,
            Option.mem_toList, Option.map_eq_some_iff] at member
          rcases member with (⟨_, _, rfl⟩ | ⟨_, _, rfl⟩) | ⟨set, found, rfl⟩
          · trivial
          · trivial
          · exact selects.2 set found
      | spread s =>
          obtain ⟨_, _, rfl⟩ := List.mem_map.mp member
          trivial
      | inline f =>
          simp only [Node.children, Node.ofSelection, List.mem_append, List.mem_map,
            Option.mem_toList, Option.map_eq_some_iff, List.mem_singleton] at member
          rcases member with (⟨_, _, rfl⟩ | ⟨_, _, rfl⟩) | rfl
          · trivial
          · trivial
          · exact selects.2 f.selectionSet rfl
  | argument _ | value _ | objectField _ | directive _ | type _ | rootType _
  | fieldDefinition _ | inputValue _ | enumValue _ =>
      refine (Node.type_system_child _ ?_ child member).selects
      trivial

theorem selects_below {node : Node} (selects : node.Selects good) {event : Event}
    (member : event ∈ node.events) {selection : Selection}
    (same : event.node = .selection selection) : good selection := by
  have own := Node.all_events selects_child node selects event member
  rw [same] at own
  exact own.1

end Selections

section Removal

/-- The names of the fragments whose definitions a finding is about. -/
def Finding.fragmentNames (finding : Finding) : List String :=
  finding.nodes.filterMap fun
    | .definition (.fragment d) => some d.name
    | _ => none

def Definition.isFragmentOf (names : List String) : Definition → Bool
  | fragment d => names.contains d.name
  | _ => false

/-- The document without the fragments of some names. -/
def Document.without (document : Document) (names : List String) : Document :=
  ⟨document.definitions.filter fun definition => !definition.isFragmentOf names⟩

variable (document : Document) {names : List String} {name : String}

theorem operations_without (names : List String) :
    (document.without names).operations = document.operations := by
  have each (definition : Definition) : (if (!definition.isFragmentOf names) = true then
      definition.operation? else none) = definition.operation? := by
    cases definition <;> simp [Definition.isFragmentOf, Definition.operation?]
  rw [Document.operations, Document.without, List.filterMap_filter, funext each]
  rfl

theorem fragments_without (names : List String) :
    (document.without names).fragments =
      document.fragments.filter fun fragment => !names.contains fragment.name := by
  have each (definition : Definition) : (if (!definition.isFragmentOf names) = true then
      definition.fragment? else none) =
        definition.fragment?.filter fun fragment => !names.contains fragment.name := by
    cases definition <;> simp [Definition.isFragmentOf, Definition.fragment?, Option.filter]
  rw [Document.fragments, Document.without, List.filterMap_filter, funext each,
    Document.fragments, List.filter_filterMap]

theorem fragment_without (kept : name ∉ names) :
    (document.without names).fragment? name = document.fragment? name := by
  have same (fragment : Fragment) : decide ((!names.contains fragment.name) = true ∧
      (fragment.name == name) = true) = (fragment.name == name) := by
    by_cases own : fragment.name = name
    · simp [own, kept]
    · simp [own]
  rw [Document.fragment?, fragments_without, ← List.filter_reverse, List.find?_filter,
    funext same]
  rfl

end Removal

section Unused
variable {document : Document}

theorem mem_unused {finding : Finding} :
    finding ∈ document.unused ↔ ∃ fragment ∈ document.fragments,
      fragment.name ∉ usedNames document document.operations ∧
        finding = .about (unusedFragment fragment.name) (.definition (.fragment fragment)) := by
  simp only [Document.unused, unusedFindings, List.mem_map, List.mem_filter,
    Bool.not_eq_true', List.contains_eq_mem, decide_eq_false_iff_not]
  constructor
  · rintro ⟨fragment, ⟨member, unused⟩, rfl⟩
    exact ⟨fragment, member, unused, rfl⟩
  · rintro ⟨fragment, member, unused, rfl⟩
    exact ⟨fragment, ⟨member, unused⟩, rfl⟩

def Document.unusedNames (document : Document) : List String :=
  document.unused.flatMap Finding.fragmentNames

theorem mem_unused_names {name : String} :
    name ∈ document.unusedNames ↔ (∃ fragment ∈ document.fragments, fragment.name = name) ∧
      name ∉ usedNames document document.operations := by
  rw [Document.unusedNames, List.mem_flatMap]
  constructor
  · rintro ⟨finding, reported, about⟩
    obtain ⟨fragment, member, unused, rfl⟩ := mem_unused.mp reported
    cases List.mem_singleton.mp about
    exact ⟨⟨fragment, member, rfl⟩, unused⟩
  · rintro ⟨⟨fragment, member, rfl⟩, unused⟩
    exact ⟨_, mem_unused.mpr ⟨fragment, member, unused, rfl⟩, List.mem_singleton_self _⟩

theorem used_of_kept {fragment : Fragment} (member : fragment ∈ document.fragments)
    (kept : fragment.name ∉ document.unusedNames) :
    ∃ operation ∈ document.operations, document.Uses operation.selectionSet fragment.name := by
  have used : fragment.name ∈ usedNames document document.operations := by
    by_contra unused
    exact kept (mem_unused_names.mpr ⟨⟨fragment, member, rfl⟩, unused⟩)
  obtain ⟨operation, listed, uses, _⟩ := (mem_used_names document _ _).mp used
  exact ⟨operation, listed, uses⟩

theorem mem_without_unused (definition : Definition) :
    definition ∈ (document.without document.unusedNames).definitions ↔
      definition ∈ document.definitions ∧
        ∀ finding ∈ document.unused, Node.definition definition ∉ finding.nodes := by
  rw [Document.without, List.mem_filter]
  refine and_congr_right fun member => ?_
  constructor
  · intro kept finding reported about
    obtain ⟨fragment, own, unused, rfl⟩ := mem_unused.mp reported
    cases List.mem_singleton.mp about
    have named := mem_unused_names.mpr ⟨⟨fragment, own, rfl⟩, unused⟩
    simp [Definition.isFragmentOf, named] at kept
  · intro unreported
    cases definition with
    | fragment fragment =>
        have own := (mem_fragments document fragment).mpr member
        have unnamed : fragment.name ∉ document.unusedNames := by
          intro named
          have unused := (mem_unused_names.mp named).2
          have reported := mem_unused.mpr ⟨fragment, own, unused, rfl⟩
          exact unreported _ reported (List.mem_singleton_self _)
        simp [Definition.isFragmentOf, unnamed]
    | _ => rfl

theorem fragment_of_used {operation : Operation} (member : operation ∈ document.operations)
    {name : String} (used : document.Uses operation.selectionSet name) :
    (document.without document.unusedNames).fragment? name = document.fragment? name := by
  apply fragment_without
  intro removed
  obtain ⟨known, unused⟩ := mem_unused_names.mp removed
  have defined := (fragment_defined_iff document name).mpr known
  exact unused ((mem_used_names document _ name).mpr ⟨operation, member, used, defined⟩)

/-- A selection spreads nothing but fragments that an operation uses. -/
def Document.SpreadsUsed (document : Document) (selection : Selection) : Prop :=
  ∀ spread, selection = .spread spread →
    ∃ operation ∈ document.operations, document.Uses operation.selectionSet spread.fragment

/-- What is left is closed under spreads. -/
theorem spreads_used (distinct : (document.fragments.map Fragment.name).Nodup)
    {definition : Definition}
    (left : definition ∈ (document.without document.unusedNames).definitions) :
    (Node.definition definition).Selects document.SpreadsUsed := by
  obtain ⟨member, kept⟩ := List.mem_filter.mp left
  cases definition with
  | operation d =>
      rintro _ found spread rfl
      exact ⟨d, (mem_operations document d).mpr member, .spread found⟩
  | fragment d =>
      have own := (mem_fragments document d).mpr member
      have named : d.name ∉ document.unusedNames := by
        simpa [Definition.isFragmentOf] using kept
      obtain ⟨operation, listed, uses⟩ := used_of_kept own named
      rintro _ found spread rfl
      exact ⟨operation, listed, .follow uses (fragment_of_mem distinct own) found⟩
  | _ => trivial

theorem unused_without_unused : (document.without document.unusedNames).unused = [] := by
  rw [unused_nil_iff, fragments_without, operations_without]
  intro fragment member
  obtain ⟨own, kept⟩ := List.mem_filter.mp member
  have named : fragment.name ∉ document.unusedNames := by simpa using kept
  obtain ⟨operation, listed, uses⟩ := used_of_kept own named
  refine (mem_used_names _ _ _).mpr ⟨operation, listed, ?_, ?_⟩
  · exact uses.mono fun name _ used found => (fragment_of_used listed used).trans found
  · rw [fragment_of_used listed uses]
    exact (fragment_defined_iff document _).mpr ⟨fragment, own, rfl⟩

/-- No spread that is left has become unknown, nor does it stand for another fragment. -/
theorem spread_without_unused (distinct : (document.fragments.map Fragment.name).Nodup)
    {definition : Definition}
    (left : definition ∈ (document.without document.unusedNames).definitions) :
    ∀ event ∈ (Node.definition definition).events, ∀ spread : FragmentSpread,
      event.node = .selection (.spread spread) →
        (document.without document.unusedNames).fragment? spread.fragment =
          document.fragment? spread.fragment := by
  intro event member spread same
  obtain ⟨operation, listed, used⟩ :=
    selects_below (spreads_used distinct left) member same spread rfl
  exact fragment_of_used listed used

theorem local_findings_without_unused (schema : Schema)
    (distinct : (document.fragments.map Fragment.name).Nodup) :
    (localFindings schema (document.without document.unusedNames)).Sublist
      (localFindings schema document) := by
  apply List.Sublist.flatMap_right
  intro rule member
  -- What is left is judged as before, and it is a part of what there was before.
  have same := List.flatMap_congr fun definition left =>
    (local_rules_local rule member).solo_definition schema
      fun event inside spread spreads =>
        congrArg Option.isSome (spread_without_unused distinct left event inside spread spreads)
  rw [same]
  exact List.filter_sublist.flatMap _

end Unused

section Validation
variable {document : Document}

theorem found_alone (schema : Schema) (intact : (Node.document document).Intact) :
    validate schema document [noUnusedFragments] = .ok document.unused := by
  have member : noUnusedFragments ∈ specifiedRules := by simp [specifiedRules]
  exact (found_by_rule schema intact member).trans
    (congrArg Except.ok (unused_in_document schema document))

/-- The fragments that are reported as unused can be removed from a document. If anything
is left, it is validated without a finding that was not there before, no fragment of it is
unused, and all that is spread in it is defined as before. -/
theorem unused_fragments_can_be_removed (schema : Schema)
    (sound : (Node.document document).Sound)
    (distinct : (document.fragments.map Fragment.name).Nodup) :
    ∃ unused, validate schema document [noUnusedFragments] = .ok unused ∧
      let rest := document.without (unused.flatMap Finding.fragmentNames)
      (∀ definition, definition ∈ rest.definitions ↔ definition ∈ document.definitions ∧
        ∀ finding ∈ unused, Node.definition definition ∉ finding.nodes) ∧
      (rest.definitions ≠ [] → ∃ found found',
        validate schema document specifiedRules = .ok found ∧
        validate schema rest specifiedRules = .ok found' ∧ found'.Subperm found ∧
        validate schema rest [noUnusedFragments] = .ok [] ∧
        (∀ finding ∈ found', ∀ fragment, Node.definition (.fragment fragment) ∉ finding.nodes) ∧
        ∀ event ∈ (Node.document rest).events, ∀ spread : FragmentSpread,
          event.node = .selection (.spread spread) →
            rest.fragment? spread.fragment = document.fragment? spread.fragment) := by
  have intact := sound.intact
  refine ⟨document.unused, found_alone schema intact, mem_without_unused, fun some => ?_⟩
  let rest := document.without document.unusedNames
  have intact' : (Node.document rest).Intact :=
    intact.fewer (fun _ member => (List.mem_filter.mp member).1) some
  obtain ⟨found, validated, all⟩ := found_by_specified_rules schema intact
  obtain ⟨found', validated', all'⟩ := found_by_specified_rules schema intact'
  rw [unused_without_unused, List.append_nil] at all'
  refine ⟨found, found', validated, validated', ?_, ?_, ?_, ?_⟩
  · have fewer := local_findings_without_unused schema distinct
    have part := fewer.trans (List.sublist_append_left (localFindings schema document)
      document.unused)
    exact all'.subperm.trans (part.subperm.trans all.symm.subperm)
  · exact (found_alone schema intact').trans (congrArg Except.ok unused_without_unused)
  · intro finding member fragment
    exact local_findings_inner schema rest finding (all'.mem_iff.mp member) _
  · intro event member spread same
    rcases Node.mem_events.mp member with rfl | ⟨child, below, inside⟩ | rfl
    · cases same
    · obtain ⟨definition, left, rfl⟩ := List.mem_map.mp below
      exact spread_without_unused distinct left event inside spread same
    · cases same

/-- An operation that spreads one fragment, and two others that spread each other. -/
theorem fragments_in_a_cycle_are_removed :
    let schema : Schema :=
      ⟨builtinTypes ++ [.object ⟨.builtin, none, "Query", [], []⟩], builtinRules, [], "Query",
        none, none⟩
    let spreading (fragment : String) : SelectionSet := ⟨.start, [.spread ⟨.start, fragment, []⟩]⟩
    let fragment (name : String) (set : SelectionSet) : Definition :=
      .fragment ⟨.start, name, ⟨.start, "Query"⟩, [], set⟩
    let field : Selection := .field ⟨.start, none, "a", [], [], none⟩
    let document : Document :=
      ⟨[fragment "F" (spreading "G"), .operation ⟨.start, .query, none, [], [], spreading "U"⟩,
        fragment "G" (spreading "F"), fragment "U" ⟨.start, [field]⟩]⟩
    (Node.document document).Sound ∧ (document.fragments.map Fragment.name).Nodup ∧
      ∃ unused, validate schema document [noUnusedFragments] = .ok unused ∧
        let rest := document.without (unused.flatMap Finding.fragmentNames)
        rest.definitions ≠ [] ∧ ∃ found found',
          validate schema document specifiedRules = .ok found ∧
          validate schema rest specifiedRules = .ok found' ∧ found'.Subperm found ∧
          validate schema rest [noUnusedFragments] = .ok [] := by
  intro schema spreading fragment field document
  have sound : (Node.document document).Sound := by
    simp [document, fragment, spreading, field, Node.Sound, Node.listing, Node.tree_eq,
      Node.children, Node.ofDefinition, Node.ofSelection, Node.ofTypeRef, Tree.listing,
      Tree.listingAll, Node.flaw?]
  have distinct : (document.fragments.map Fragment.name).Nodup := by
    have names : document.fragments.map Fragment.name = ["F", "G", "U"] := rfl
    rw [names]
    decide
  obtain ⟨unused, reported, _, removed⟩ := unused_fragments_can_be_removed schema sound distinct
  -- Operations are never removed.
  have some : (document.without (unused.flatMap Finding.fragmentNames)).definitions ≠ [] := by
    intro none
    have operations := operations_without document (unused.flatMap Finding.fragmentNames)
    rw [Document.operations, none] at operations
    cases operations
  obtain ⟨found, found', validated, validated', part, clean, _⟩ := removed some
  exact ⟨sound, distinct, unused, reported, some, found, found', validated, validated', part, clean⟩

end Validation
end GraphQL
