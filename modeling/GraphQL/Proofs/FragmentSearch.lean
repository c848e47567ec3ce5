import GraphQL.Proofs.ReachableFragments
import Mathlib.Logic.Function.Iterate

/-! The search for the fragments of an operation, round by round. A round takes one selection
set and adds one for each fragment that it finds. No name is found twice, so the rounds come
to an end even where fragments spread each other, and by then every fragment that is in reach
was found. -/
namespace GraphQL

namespace Search

/-- Takes the next selection set and meets its spreads. A search that has nothing left to do
stays as it is. -/
def round (document : Document) (search : Search) : Search :=
  match search.pending with
  | [] => search
  | set :: pending => meetAll document { search with pending := pending } set.spreads

def start (operation : Operation) : Search := ⟨[], [operation.selectionSet], []⟩

variable {document : Document} {search : Search}

section Rounds

theorem round_idle (idle : search.pending = []) : round document search = search := by
  rw [round, idle]

theorem round_waiting {set : SelectionSet} {pending : List SelectionSet}
    (waiting : search.pending = set :: pending) :
    round document search =
      meetAll document { search with pending := pending } set.spreads := by
  rw [round, waiting]

theorem rounds_idle (idle : search.pending = []) (rounds : Nat) :
    (round document)^[rounds] search = search :=
  Function.iterate_fixed (round_idle idle) rounds

/-- What is left to do does not change what is found in the end. -/
theorem run_round (document : Document) (search : Search) :
    run document (round document search) = run document search := by
  cases waiting : search.pending with
  | nil => rw [round_idle waiting]
  | cons set pending =>
      rw [round_waiting waiting, run.eq_def document search]
      split
      · next idle => exact absurd (waiting.symm.trans idle) (List.cons_ne_nil _ _)
      · next other rest same =>
        cases waiting.symm.trans same
        rfl

theorem run_rounds (document : Document) (search : Search) (rounds : Nat) :
    run document ((round document)^[rounds] search) = run document search := by
  induction rounds generalizing search with
  | zero => rfl
  | succ rounds ih => rw [Function.iterate_succ_apply, ih, run_round]

theorem run_idle (document : Document) (idle : search.pending = []) :
    run document search = search.found := by
  rw [run, idle]

end Rounds

/-! Every fragment that is found leaves one selection set to be searched, so the two lists
grow alike. -/
section Counting

theorem meet_balance (document : Document) (search : Search) (spread : FragmentSpread) :
    (meet document search spread).pending.length + search.found.length =
        search.pending.length + (meet document search spread).found.length ∧
      search.found.length ≤ (meet document search spread).found.length := by
  rw [meet]
  split
  · exact ⟨rfl, Nat.le_refl _⟩
  · split
    · exact ⟨rfl, Nat.le_refl _⟩
    · simp only [List.length_cons, List.length_append, List.length_nil]
      omega

theorem meet_all_balance (document : Document) (spreads : List FragmentSpread)
    (search : Search) :
    (meetAll document search spreads).pending.length + search.found.length =
        search.pending.length + (meetAll document search spreads).found.length ∧
      search.found.length ≤ (meetAll document search spreads).found.length := by
  induction spreads generalizing search with
  | nil => exact ⟨rfl, Nat.le_refl _⟩
  | cons spread rest ih =>
      obtain ⟨balance, grows⟩ := meet_balance document search spread
      obtain ⟨later, grows_later⟩ := ih (meet document search spread)
      have first : meetAll document search (spread :: rest) =
        meetAll document (meet document search spread) rest := rfl
      rw [first]
      exact ⟨by omega, Nat.le_trans grows grows_later⟩

/-- The rounds that a search takes: one for each set that waits, and one for each fragment
that will be found. -/
theorem idle_after_rounds (search : Search) :
    search.found.length ≤ (run document search).length ∧
      ∀ rounds, ((round document)^[rounds] search).pending = [] ↔
        (run document search).length + search.pending.length ≤
          search.found.length + rounds := by
  induction search using run.induct document with
  | case1 search idle =>
      refine ⟨Nat.le_of_eq (congrArg _ (run_idle document idle).symm), fun rounds => ?_⟩
      rw [rounds_idle idle, run_idle document idle, idle, List.length_nil]
      exact iff_of_true rfl (Nat.le_add_right _ _)
  | case2 search set pending waiting ih =>
      obtain ⟨balance, grows⟩ :=
        meet_all_balance document set.spreads { search with pending := pending }
      rw [← round_waiting waiting] at ih balance grows
      dsimp only at balance grows
      obtain ⟨kept, later⟩ := ih
      rw [run_round] at kept later
      refine ⟨Nat.le_trans grows kept, fun rounds => ?_⟩
      cases rounds with
      | zero =>
          rw [Function.iterate_zero_apply, waiting, List.length_cons]
          exact iff_of_false (List.cons_ne_nil _ _) (by omega)
      | succ rounds =>
          rw [Function.iterate_succ_apply, later, waiting, List.length_cons]
          omega

end Counting

section Names

/-- No name was found twice, and what was found was met. -/
structure Distinct (search : Search) : Prop where
  names : (search.found.map Fragment.name).Nodup
  met : ∀ fragment ∈ search.found, fragment.name ∈ search.met

theorem meet_distinct (before : search.Distinct) (spread : FragmentSpread) :
    (meet document search spread).Distinct := by
  have more : ∀ fragment ∈ search.found, fragment.name ∈ spread.fragment :: search.met :=
    fun fragment member => List.mem_cons_of_mem _ (before.met fragment member)
  rw [meet]
  split
  · exact before
  · next fresh =>
    split
    · exact ⟨before.names, more⟩
    · next fragment defined =>
      have named : fragment.name = spread.fragment := (mem_fragments defined).2
      constructor
      · rw [List.map_append, List.map_singleton, ← List.concat_eq_append, List.nodup_concat]
        refine ⟨fun found => fresh ?_, before.names⟩
        obtain ⟨other, member, same⟩ := List.mem_map.mp found
        rw [← named, ← same]
        exact List.contains_iff_mem.mpr (before.met other member)
      · refine List.forall_mem_append.mpr ⟨more, List.forall_mem_singleton.mpr ?_⟩
        rw [named]
        exact List.mem_cons_self

theorem meet_all_distinct (spreads : List FragmentSpread) (before : search.Distinct) :
    (meetAll document search spreads).Distinct := by
  induction spreads generalizing search with
  | nil => exact before
  | cons spread rest ih => exact ih (meet_distinct before spread)

theorem run_distinct (before : search.Distinct) :
    ((run document search).map Fragment.name).Nodup := by
  induction search using run.induct document with
  | case1 search idle =>
      rw [run_idle document idle]
      exact before.names
  | case2 search set pending waiting ih =>
      have taken : Distinct { search with pending := pending } := ⟨before.names, before.met⟩
      have next := ih (meet_all_distinct set.spreads taken)
      rwa [← round_waiting waiting, run_round] at next

end Names
end Search

section Reached
variable (document : Document) (operation : Operation)

theorem reached_names_nodup : ((document.reached operation).map Fragment.name).Nodup :=
  Search.run_distinct ⟨List.nodup_nil, fun _ member => absurd member List.not_mem_nil⟩

theorem mem_reached_iff (fragment : Fragment) :
    fragment ∈ document.reached operation ↔ ∃ name,
      document.Uses operation.selectionSet name ∧ document.fragment? name = some fragment := by
  constructor
  · intro reached
    have used := (document.mem_reached operation fragment.name).mp (List.mem_map_of_mem reached)
    exact ⟨fragment.name, used.1, reached_defined reached⟩
  · rintro ⟨name, used, defined⟩
    have known := (document.mem_reached operation name).mpr ⟨used, Option.isSome_of_eq_some defined⟩
    obtain ⟨other, reached, rfl⟩ := List.mem_map.mp known
    cases (reached_defined reached).symm.trans defined
    exact reached

/-- No more fragments are reached than there are definitions. -/
theorem reached_length_le : (document.reached operation).length ≤ document.fragments.length := by
  have distinct : (document.reached operation).Nodup := (reached_names_nodup ..).of_map
  apply List.Subperm.length_le
  apply distinct.subperm
  intro fragment reached
  exact (Search.mem_fragments (reached_defined reached)).1

/-- The search for the fragments of an operation is over when it has taken one round for the
operation and one for each fragment that it has found, and not before. It has found then the
fragments of the names that the operation uses, and none of them twice. -/
theorem search_ends_with_used_fragments :
    let reached := document.reached operation
    let after (rounds : Nat) := (Search.round document)^[rounds] (.start operation)
    (∀ rounds, (after rounds).pending = [] ↔ reached.length < rounds) ∧
      (∀ rounds, (after rounds).pending = [] → (after rounds).found = reached) ∧
      reached.length ≤ document.fragments.length ∧
      (reached.map Fragment.name).Nodup ∧
      ∀ fragment, fragment ∈ reached ↔ ∃ name,
        document.Uses operation.selectionSet name ∧ document.fragment? name = some fragment := by
  intro reached after
  refine ⟨fun rounds => ?_, fun rounds idle => ?_, reached_length_le document operation,
    reached_names_nodup document operation, mem_reached_iff document operation⟩
  · -- One set waits at the start, that of the operation, and nothing was found.
    have needed : (after rounds).pending = [] ↔ reached.length + 1 ≤ 0 + rounds :=
      (Search.idle_after_rounds (.start operation)).2 rounds
    rw [needed, Nat.zero_add, Nat.succ_le_iff]
  · rw [← Search.run_idle document idle]
    exact Search.run_rounds document _ rounds

end Reached
end GraphQL
