import GraphQL.Proofs.UnusedRemoval

/-! The fragments that can be reached from the operations of a document. Reachability is
said without the search for fragments, and the rule about unused fragments reports exactly
those that are out of reach. -/
namespace GraphQL

open Inspection Rules

section Reachability

def Document.Defines (document : Document) (name : String) (fragment : Fragment) : Prop :=
  ∃ before after, document.fragments = before ++ fragment :: after ∧ fragment.name = name ∧
    ∀ other ∈ after, other.name ≠ name

/-- The least set of names that has those that are spread in an operation, and with a name
those that are spread in its fragment. -/
inductive Document.Reachable (document : Document) : String → Prop where
  | spread {operation : Operation} {spread : FragmentSpread}
      (member : operation ∈ document.operations)
      (found : Selection.spread spread ∈ operation.selectionSet.all) :
      Reachable document spread.fragment
  | follow {name : String} {fragment : Fragment} {spread : FragmentSpread}
      (reached : Reachable document name) (defined : document.Defines name fragment)
      (found : Selection.spread spread ∈ fragment.selectionSet.all) :
      Reachable document spread.fragment

variable {document : Document} {name : String} {fragment : Fragment}

theorem defines_iff : document.Defines name fragment ↔ document.fragment? name = some fragment := by
  rw [Document.fragment?, List.find?_eq_some_iff_append]
  constructor
  · rintro ⟨before, after, split, named, last⟩
    refine ⟨beq_iff_eq.mpr named, after.reverse, before.reverse, ?_, ?_⟩
    · rw [split]
      simp
    · intro other member
      simpa using last other (List.mem_reverse.mp member)
  · rintro ⟨named, after, before, split, last⟩
    refine ⟨before.reverse, after.reverse, ?_, beq_iff_eq.mp named, ?_⟩
    · rw [← List.reverse_reverse document.fragments, split]
      simp
    · intro other member
      simpa using last other (List.mem_reverse.mp member)

theorem reachable_iff_used : document.Reachable name ↔
    ∃ operation ∈ document.operations, document.Uses operation.selectionSet name := by
  constructor
  · intro reachable
    induction reachable with
    | spread member found => exact ⟨_, member, .spread found⟩
    | follow _ defined found ih =>
        obtain ⟨operation, member, used⟩ := ih
        exact ⟨operation, member, .follow used (defines_iff.mp defined) found⟩
  · rintro ⟨operation, member, used⟩
    induction used with
    | spread found => exact .spread member found
    | follow _ defined found ih => exact .follow ih (defines_iff.mpr defined) found

end Reachability

/-! Reachability can be decided: what is spread in an operation or in a fragment that the
search has found is all that is in reach. -/
section Deciding

namespace Search
variable {document : Document} {search : Search}

/-- A search finds no fragment that another one of its name takes the place of. -/
def FindsDefined (document : Document) (search : Search) : Prop :=
  ∀ fragment ∈ search.found, document.fragment? fragment.name = some fragment

theorem meet_finds_defined (before : search.FindsDefined document) (spread : FragmentSpread) :
    (meet document search spread).FindsDefined document := by
  rw [meet]
  split
  · exact before
  · split
    · exact before
    · next fragment defined =>
      have named : fragment.name = spread.fragment := (mem_fragments defined).2
      refine List.forall_mem_append.mpr ⟨before, List.forall_mem_singleton.mpr ?_⟩
      rw [named]
      exact defined

theorem meet_all_finds_defined (spreads : List FragmentSpread)
    (before : search.FindsDefined document) :
    (meetAll document search spreads).FindsDefined document := by
  induction spreads generalizing search with
  | nil => exact before
  | cons spread rest ih => exact ih (meet_finds_defined before spread)

theorem run_finds_defined (before : search.FindsDefined document) :
    ∀ fragment ∈ run document search, document.fragment? fragment.name = some fragment := by
  induction search using run.induct document with
  | case1 search idle =>
      rw [run, idle]
      exact before
  | case2 search set pending waiting ih =>
      have next := ih (meet_all_finds_defined set.spreads before)
      rw [run]
      split
      · next idle => exact absurd (waiting.symm.trans idle) (List.cons_ne_nil _ _)
      · next other rest same =>
        cases waiting.symm.trans same
        exact next

end Search

variable {document : Document} {name : String}

theorem reached_defined {operation : Operation} {fragment : Fragment}
    (reached : fragment ∈ document.reached operation) :
    document.fragment? fragment.name = some fragment :=
  Search.run_finds_defined (fun _ member => absurd member List.not_mem_nil) fragment reached

/-- The selection sets of the operations, and of the fragments that they reach. -/
def Document.searched (document : Document) : List SelectionSet :=
  document.operations.map Operation.selectionSet ++
    (document.operations.flatMap document.reached).map Fragment.selectionSet

theorem reachable_iff_spread : document.Reachable name ↔
    ∃ set ∈ document.searched, ∃ spread ∈ set.spreads, spread.fragment = name := by
  simp only [SelectionSet.mem_spreads]
  constructor
  · intro reachable
    cases reachable with
    | spread member found =>
        exact ⟨_, List.mem_append_left _ (List.mem_map_of_mem member), _, found, rfl⟩
    | @follow before fragment spread reached defined found =>
        -- The fragment was found by the operation that uses its name.
        obtain ⟨operation, member, used⟩ := reachable_iff_used.mp reached
        have defined := defines_iff.mp defined
        have known : before ∈ (document.reached operation).map Fragment.name :=
          (document.mem_reached operation before).mpr ⟨used, by rw [defined]; rfl⟩
        obtain ⟨other, inside, rfl⟩ := List.mem_map.mp known
        cases (reached_defined inside).symm.trans defined
        have searched : fragment ∈ document.operations.flatMap document.reached :=
          List.mem_flatMap.mpr ⟨operation, member, inside⟩
        exact ⟨_, List.mem_append_right _ (List.mem_map_of_mem searched), spread, found, rfl⟩
  · rintro ⟨set, searched, spread, found, rfl⟩
    rcases List.mem_append.mp searched with own | reached
    · obtain ⟨operation, member, rfl⟩ := List.mem_map.mp own
      exact .spread member found
    · obtain ⟨fragment, found_by, rfl⟩ := List.mem_map.mp reached
      obtain ⟨operation, member, inside⟩ := List.mem_flatMap.mp found_by
      have used := ((document.mem_reached operation fragment.name).mp
        (List.mem_map_of_mem inside)).1
      exact .follow (reachable_iff_used.mpr ⟨operation, member, used⟩)
        (defines_iff.mpr (reached_defined inside)) found

instance : DecidablePred document.Reachable :=
  fun _ => decidable_of_iff _ reachable_iff_spread.symm

end Deciding

section Reports
variable {document : Document}

theorem unused_eq (document : Document) :
    document.unused = (document.fragments.filter fun fragment =>
        ¬ document.Reachable fragment.name).map fun fragment =>
      .about (unusedFragment fragment.name) (.definition (.fragment fragment)) := by
  have used (fragment : Fragment) (member : fragment ∈ document.fragments) :
      fragment.name ∈ usedNames document document.operations ↔
        document.Reachable fragment.name := by
    have defined := (fragment_defined_iff document _).mpr ⟨fragment, member, rfl⟩
    simp only [mem_used_names, reachable_iff_used, defined, and_true]
  refine congrArg (List.map _) (List.filter_congr fun fragment member => ?_)
  rw [Bool.eq_iff_iff, decide_eq_true_iff, ← used fragment member]
  simp

/-- The rule about unused fragments reports each definition of a fragment whose name is out
of reach, in the order of the document, and nothing else. -/
theorem unreachable_fragments_are_reported (schema : Schema)
    (sound : (Node.document document).Sound) :
    validate schema document [noUnusedFragments] =
      .ok ((document.fragments.filter fun fragment =>
          ¬ document.Reachable fragment.name).map fun fragment =>
        .about (unusedFragment fragment.name) (.definition (.fragment fragment))) := by
  rw [← unused_eq]
  exact found_alone schema sound.intact

/-- Two fragments that spread each other, an operation that spreads a fragment which is not
defined and one that is defined twice, and the last definition spreads nothing. -/
theorem fragments_in_a_cycle_are_reported :
    let schema : Schema := ⟨builtinTypes, builtinRules, [], "Query", none, none⟩
    let spread (name : String) : Selection := .spread ⟨.start, name, []⟩
    let fragment (name : String) (selection : Selection) : Fragment :=
      ⟨.start, name, ⟨.start, "Query"⟩, [], ⟨.start, [selection]⟩⟩
    let field : Selection := .field ⟨.start, none, "a", [], [], none⟩
    let operation : Operation :=
      ⟨.start, .query, none, [], [], ⟨.start, [spread "U", spread "X"]⟩⟩
    let report (fragment : Fragment) : Finding :=
      .about (unusedFragment fragment.name) (.definition (.fragment fragment))
    let document : Document :=
      ⟨[.fragment (fragment "U" (spread "F")), .fragment (fragment "F" (spread "G")),
        .operation operation, .scalar ⟨.start, none, "Date", []⟩,
        .fragment (fragment "G" (spread "F")), .fragment (fragment "U" field)]⟩
    (Node.document document).Sound ∧ validate schema document [noUnusedFragments] =
      .ok [report (fragment "F" (spread "G")), report (fragment "G" (spread "F"))] := by
  intro schema spread fragment field operation report document
  have sound : (Node.document document).Sound := by
    simp [document, operation, fragment, spread, field, Node.Sound, Node.listing, Node.tree_eq,
      Node.children, Node.ofDefinition, Node.ofSelection, Node.ofTypeRef, Tree.listing,
      Tree.listingAll, Node.flaw?]
  have near (name : String) (reachable : document.Reachable name) : name = "U" ∨ name = "X" := by
    induction reachable with
    | spread member found =>
        cases List.mem_singleton.mp member
        simp only [operation, spread, SelectionSet.all, SelectionSet.sites, sitesOfAll,
          Selection.sitesBelow, List.nil_append, List.map_cons, List.map_nil, List.mem_cons,
          Selection.spread.injEq, List.not_mem_nil, or_false] at found
        rcases found with rfl | rfl
        · exact .inl rfl
        · exact .inr rfl
    | follow _ defined found ih =>
        rw [defines_iff] at defined
        -- The last definition of `U` spreads nothing, and there is none of `X`.
        rcases ih with rfl | rfl
        · cases defined
          simp [fragment, field, SelectionSet.all, SelectionSet.sites, sitesOfAll,
            Selection.sitesBelow, Field.sitesBelow, sitesOfOptional] at found
        · cases defined
  have member : operation ∈ document.operations := List.mem_cons_self
  have found : spread "U" ∈ operation.selectionSet.all := List.mem_cons_self
  have reached : document.Reachable "U" := .spread member found
  have apart : ¬ document.Reachable "F" ∧ ¬ document.Reachable "G" :=
    ⟨fun reachable => by simpa using near _ reachable,
      fun reachable => by simpa using near _ reachable⟩
  refine ⟨sound, (unreachable_fragments_are_reported schema sound).trans ?_⟩
  have fragments : document.fragments = [fragment "U" (spread "F"), fragment "F" (spread "G"),
      fragment "G" (spread "F"), fragment "U" field] := rfl
  simp [fragments, fragment, reached, apart, report]

end Reports
end GraphQL
