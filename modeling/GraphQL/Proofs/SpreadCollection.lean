import GraphQL.Proofs.FieldFindings
import Mathlib.Logic.Function.Iterate

/-! The collection of the spreads in a selection set, round by round. A round goes through one of
the sets that wait: it collects the spreads among its selections, and the sets nested in it wait
from then on. The spreads that were collected are, together with those in the waiting sets, the
same after a round as before it, each as many times, so the order of the rounds does not matter. -/
namespace GraphQL

/-- Spreads that were collected, and selection sets that wait, the one that is next in front. -/
structure Collection where
  collected : List FragmentSpread
  waiting : List SelectionSet

namespace Collection

section Rounds

/-- A spread is collected. It is not followed. -/
def take (collection : Collection) : Selection → Collection
  | .field f =>
      match f.selectionSet? with
      | some set => { collection with waiting := set :: collection.waiting }
      | none => collection
  | .spread s => { collection with collected := collection.collected ++ [s] }
  | .inline f => { collection with waiting := f.selectionSet :: collection.waiting }

/-- Goes through the next set. A collection that nothing waits for stays as it is. -/
def round (collection : Collection) : Collection :=
  match collection.waiting with
  | [] => collection
  | set :: waiting => set.selections.foldl take { collection with waiting := waiting }

def start (set : SelectionSet) : Collection := ⟨[], [set]⟩

variable {collection : Collection} {set : SelectionSet} {waiting : List SelectionSet}

theorem take_eq (collection : Collection) (selection : Selection) :
    take collection selection =
      ⟨collection.collected ++ selection.spread?.toList,
        selection.nested?.toList ++ collection.waiting⟩ := by
  cases selection with
  | field f =>
      cases nested : f.selectionSet? with
      | none => simp [take, Selection.spread?, Selection.nested?, nested]
      | some set => simp [take, Selection.spread?, Selection.nested?, nested]
  | spread s => simp [take, Selection.spread?, Selection.nested?]
  | inline f => simp [take, Selection.spread?, Selection.nested?]

theorem take_all_eq (collection : Collection) (selections : List Selection) :
    selections.foldl take collection =
      ⟨collection.collected ++ selections.filterMap Selection.spread?,
        (selections.filterMap Selection.nested?).reverse ++ collection.waiting⟩ := by
  induction selections generalizing collection with
  | nil => simp
  | cons selection rest ih =>
      rw [List.foldl_cons, ih, take_eq, List.filterMap_cons, List.filterMap_cons]
      cases selection.spread? <;> cases selection.nested? <;> simp

theorem round_idle (idle : collection.waiting = []) : round collection = collection := by
  rw [round, idle]

theorem round_waiting (next : collection.waiting = set :: waiting) :
    round collection =
      ⟨collection.collected ++ set.ownSpreads, set.nested.reverse ++ waiting⟩ := by
  rw [round, next]
  exact take_all_eq _ _

end Rounds

/-! A round is about one selection set, and all sets that are nested in it wait after it. -/
section Counting
variable (collection : Collection)

theorem round_count : countSets (round collection).waiting = countSets collection.waiting - 1 := by
  cases next : collection.waiting with
  | nil => rw [round_idle next, next, countSets]
  | cons set waiting =>
      rw [round_waiting next, count_append, count_reverse, countSets, set.count_eq]
      omega

theorem rounds_count (rounds : Nat) :
    countSets (round^[rounds] collection).waiting = countSets collection.waiting - rounds := by
  induction rounds with
  | zero => rfl
  | succ rounds ih => rw [Function.iterate_succ_apply', round_count, ih, Nat.sub_sub]

theorem idle_iff_count : collection.waiting = [] ↔ countSets collection.waiting = 0 := by
  cases collection.waiting with
  | nil => exact iff_of_true rfl rfl
  | cons set waiting =>
      rw [countSets, set.count_eq]
      exact iff_of_false (List.cons_ne_nil _ _) (by omega)

end Counting

section Contents
variable (collection : Collection)

def outcome : List FragmentSpread := collection.collected ++ spreadsOf collection.waiting

theorem round_outcome : (round collection).outcome = collection.outcome := by
  cases next : collection.waiting with
  | nil => rw [round_idle next]
  | cons set waiting =>
      rw [round_waiting next, outcome, outcome, next, spreadsOf, List.append_assoc]

theorem rounds_outcome (rounds : Nat) :
    (round^[rounds] collection).outcome = collection.outcome := by
  induction rounds with
  | zero => rfl
  | succ rounds ih => rw [Function.iterate_succ_apply', round_outcome, ih]

end Contents
end Collection

/-! Which spreads there are. They are told by recursion over the selections, and they are those
among the nodes at and below the set. -/
section Occurrences

/-- The spreads in a selection set at any depth, in source order. -/
def SelectionSet.occurring (set : SelectionSet) : List FragmentSpread :=
  set.all.filterMap Selection.spread?

def Node.spread? : Node → Option FragmentSpread
  | .selection s => s.spread?
  | _ => none

theorem spreads_of_nodes (set : SelectionSet) :
    (Node.selectionSet set).nodes.filterMap Node.spread? = set.occurring := by
  have same : Node.spread? = fun node => node.selection?.bind Selection.spread? := by
    funext node
    cases node <;> rfl
  rw [SelectionSet.occurring, ← nodes_of_set, List.filterMap_filterMap, same]

theorem occurring_eq (set : SelectionSet) :
    set.occurring = set.selections.flatMap fun selection =>
      selection.spread?.toList ++ selection.nested?.toList.flatMap SelectionSet.occurring := by
  rw [SelectionSet.occurring, SelectionSet.all, SelectionSet.sites_eq, List.map_flatMap,
    List.filterMap_flatMap]
  refine List.flatMap_congr fun selection _ => ?_
  rw [List.map_cons, List.map_flatMap, List.filterMap_cons, List.filterMap_flatMap]
  cases selection.spread? <;> rfl

/-- The spreads in a set are its own and those in the sets that are nested in it. -/
theorem occurring_perm (set : SelectionSet) :
    set.occurring.Perm (set.ownSpreads ++ set.nested.flatMap SelectionSet.occurring) := by
  rw [occurring_eq, SelectionSet.ownSpreads, SelectionSet.nested,
    List.filterMap_eq_flatMap_toList, List.filterMap_eq_flatMap_toList, List.flatMap_assoc]
  exact (List.flatMap_append_perm _ _ _).symm

end Occurrences

namespace Collection

section Invariance

/-- The spreads that were collected, and those in the sets that wait. -/
def contents (collection : Collection) : List FragmentSpread :=
  collection.collected ++ collection.waiting.flatMap SelectionSet.occurring

theorem round_contents (collection : Collection) :
    (round collection).contents.Perm collection.contents := by
  cases next : collection.waiting with
  | nil => rw [round_idle next]
  | cons set waiting =>
      have nested : (set.nested.reverse.flatMap SelectionSet.occurring).Perm
          (set.nested.flatMap SelectionSet.occurring) :=
        (List.reverse_perm _).flatMap_right _
      have gone_through : (set.ownSpreads ++
          set.nested.reverse.flatMap SelectionSet.occurring).Perm set.occurring :=
        (nested.append_left _).trans (occurring_perm set).symm
      rw [round_waiting next, contents, contents, next, List.flatMap_append, List.flatMap_cons,
        List.append_assoc, ← List.append_assoc set.ownSpreads]
      exact (gone_through.append_right _).append_left _

theorem rounds_contents (collection : Collection) (rounds : Nat) :
    (round^[rounds] collection).contents.Perm collection.contents := by
  induction rounds with
  | zero => exact .refl _
  | succ rounds ih =>
      rw [Function.iterate_succ_apply']
      exact (round_contents _).trans ih

end Invariance
end Collection

/-- The collection of the spreads in a selection set is over when it has taken one round for each
set that the selection set is made of, and not before. By then every spread among the nodes at
and below the set was collected, as many times as it is there, and no other spread was. -/
theorem spreads_are_collected_once (set : SelectionSet) :
    let after (rounds : Nat) := Collection.round^[rounds] (.start set)
    (∀ rounds, (after rounds).waiting = [] ↔ set.count ≤ rounds) ∧
      (∀ rounds, (after rounds).waiting = [] → (after rounds).collected = set.spreads) ∧
      set.spreads.Perm ((Node.selectionSet set).nodes.filterMap Node.spread?) := by
  intro after
  have waits (rounds : Nat) : countSets (after rounds).waiting = set.count - rounds :=
    Collection.rounds_count (.start set) rounds
  have ends (rounds : Nat) : (after rounds).waiting = [] ↔ set.count ≤ rounds := by
    rw [Collection.idle_iff_count, waits, Nat.sub_eq_zero_iff_le]
  have collected (rounds : Nat) (idle : (after rounds).waiting = []) :
      (after rounds).collected = set.spreads := by
    have outcome := Collection.rounds_outcome (.start set) rounds
    rwa [Collection.outcome, idle, spreadsOf, List.append_nil] at outcome
  refine ⟨ends, collected, ?_⟩
  have idle : (after set.count).waiting = [] := (ends set.count).mpr (Nat.le_refl _)
  have contents := Collection.rounds_contents (.start set) set.count
  rw [Collection.contents, idle, collected set.count idle] at contents
  simpa [Collection.contents, Collection.start, spreads_of_nodes] using contents

/-- The set that was found last is gone through first. -/
example :
    let set (selections : List Selection) : SelectionSet := ⟨.start, selections⟩
    let spread (name : String) : Selection := .spread ⟨.start, name, []⟩
    let field (name : String) (selections : List Selection) : Selection :=
      .field ⟨.start, none, name, [], [], some (set selections)⟩
    let inline (selections : List Selection) : Selection :=
      .inline ⟨.start, none, [], set selections⟩
    let query := set
      [spread "Top", field "dog" [spread "InField", field "owner" [spread "Deep"]],
        inline [spread "InInline"]]
    (Collection.round^[4] (.start query)).collected.map FragmentSpread.fragment =
      ["Top", "InInline", "InField", "Deep"] := rfl

end GraphQL
