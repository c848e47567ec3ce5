import GraphQL.Proofs.DistinctNames
import GraphQL.Proofs.RuleFindings

/-! The order of the definitions in a document does not count for what is found in it: the
findings come in another order, and are the same. -/
namespace GraphQL

open Inspection Rules

instance : Named Fragment := ⟨Fragment.name⟩

section Names
variable {document document' : Document}

theorem distinct_reversed (distinct : (document.fragments.map Fragment.name).Nodup) :
    Named.Distinct document.fragments.reverse :=
  (Named.distinct_perm (List.reverse_perm document.fragments)).mpr distinct

theorem fragment_of_mem (distinct : (document.fragments.map Fragment.name).Nodup)
    {fragment : Fragment} (member : fragment ∈ document.fragments) :
    document.fragment? fragment.name = some fragment :=
  Named.find_some_of_mem (distinct_reversed distinct) (List.mem_reverse.mpr member)

theorem fragment_perm (distinct : (document.fragments.map Fragment.name).Nodup)
    (perm : document.definitions.Perm document'.definitions) (name : String) :
    document.fragment? name = document'.fragment? name := by
  have fragments : document.fragments.Perm document'.fragments := perm.filterMap _
  have reversed := (List.reverse_perm document.fragments).trans
    (fragments.trans (List.reverse_perm document'.fragments).symm)
  exact Named.find_perm (distinct_reversed distinct) reversed name

theorem used_names_perm (distinct : (document.fragments.map Fragment.name).Nodup)
    (perm : document.definitions.Perm document'.definitions) (name : String)
    (used : name ∈ usedNames document document.operations) :
    name ∈ usedNames document' document'.operations := by
  have operations : document.operations.Perm document'.operations := perm.filterMap _
  have same := fragment_perm distinct perm
  obtain ⟨operation, member, uses, defined⟩ := (mem_used_names document _ name).mp used
  refine (mem_used_names document' _ name).mpr
    ⟨operation, operations.mem_iff.mp member, ?_, same name ▸ defined⟩
  exact uses.mono fun name _ _ found => (same name).symm.trans found

theorem unused_perm (distinct : (document.fragments.map Fragment.name).Nodup)
    (perm : document.definitions.Perm document'.definitions) :
    document.unused.Perm document'.unused := by
  have fragments : document.fragments.Perm document'.fragments := perm.filterMap _
  have distinct' := (fragments.map Fragment.name).nodup_iff.mp distinct
  have same (name : String) : (usedNames document document.operations).contains name =
      (usedNames document' document'.operations).contains name := by
    rw [Bool.eq_iff_iff, List.contains_iff_mem, List.contains_iff_mem]
    exact ⟨used_names_perm distinct perm name, used_names_perm distinct' perm.symm name⟩
  simp only [Document.unused, unusedFindings, same]
  exact (fragments.filter _).map _

end Names

section Order
variable {document document' : Document}

theorem local_findings_perm (schema : Schema)
    (distinct : (document.fragments.map Fragment.name).Nodup)
    (perm : document.definitions.Perm document'.definitions) :
    (localFindings schema document).Perm (localFindings schema document') := by
  apply List.Perm.flatMap_left
  intro rule member
  apply List.Perm.trans (perm.flatMap_right _)
  apply List.Perm.of_eq
  apply List.flatMap_congr
  intro definition _
  apply (local_rules_local rule member).solo_definition
  exact fun _ _ spread _ => congrArg Option.isSome (fragment_perm distinct perm spread.fragment)

/-- A document with its definitions in another order is validated to the same findings in
another order, if the names of its fragments are distinct. -/
theorem findings_ignore_order (schema : Schema) (sound : (Node.document document).Sound)
    (distinct : (document.fragments.map Fragment.name).Nodup)
    (perm : document.definitions.Perm document'.definitions) :
    ∃ found found', validate schema document specifiedRules = .ok found ∧
      validate schema document' specifiedRules = .ok found' ∧ found.Perm found' := by
  have intact := sound.intact
  have some : document'.definitions ≠ [] :=
    fun none => intact.definitions_ne_nil (List.perm_nil.mp (none ▸ perm))
  have intact' := intact.fewer (fun definition => perm.mem_iff.mpr) some
  obtain ⟨found, validated, all⟩ := found_by_specified_rules schema intact
  obtain ⟨found', validated', all'⟩ := found_by_specified_rules schema intact'
  have both := (local_findings_perm schema distinct perm).append (unused_perm distinct perm)
  exact ⟨found, found', validated, validated', all.trans (both.trans all'.symm)⟩

/-- An operation that selects an unknown field and spreads a fragment which is not defined,
before and after a fragment that is not used. -/
theorem findings_of_two_orders :
    let schema : Schema :=
      ⟨builtinTypes ++ [.object ⟨.builtin, none, "Query", [], []⟩], builtinRules, [], "Query",
        none, none⟩
    let field : Selection := .field ⟨.start, none, "a", [], [], none⟩
    let spread : Selection := .spread ⟨.start, "G", []⟩
    let operation : Definition :=
      .operation ⟨.start, .query, none, [], [], ⟨.start, [field, spread]⟩⟩
    let fragment : Definition :=
      .fragment ⟨.start, "F", ⟨.start, "Query"⟩, [], ⟨.start, [field]⟩⟩
    let document : Document := ⟨[operation, fragment]⟩
    let document' : Document := ⟨[fragment, operation]⟩
    (Node.document document).Sound ∧ (document.fragments.map Fragment.name).Nodup ∧
      document.definitions.Perm document'.definitions ∧
      ∃ found found', validate schema document specifiedRules = .ok found ∧
        validate schema document' specifiedRules = .ok found' ∧ found.Perm found' := by
  intro schema field spread operation fragment document document'
  have sound : (Node.document document).Sound := by
    simp [document, operation, fragment, field, spread, Node.Sound, Node.listing, Node.tree_eq,
      Node.children, Node.ofDefinition, Node.ofSelection, Node.ofTypeRef, Tree.listing,
      Tree.listingAll, Node.flaw?]
  have distinct : (document.fragments.map Fragment.name).Nodup := List.nodup_singleton _
  have perm : document.definitions.Perm document'.definitions :=
    List.Perm.swap fragment operation []
  exact ⟨sound, distinct, perm, findings_ignore_order schema sound distinct perm⟩

end Order
end GraphQL
