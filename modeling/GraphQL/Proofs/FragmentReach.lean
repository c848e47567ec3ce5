import GraphQL.Proofs.ValidDocuments

/-! The search for the fragments of an operation finds those that are used, whatever the
order of the search, and whether or not fragments spread each other in a cycle. -/
namespace GraphQL

section Spreads

theorem SelectionSet.mem_all {set : SelectionSet} {inner : Selection} :
    inner ∈ set.all ↔ inner ∈ set.selections ∨
      ∃ nested ∈ set.nested, inner ∈ nested.all := by
  simp only [all, sites_eq _ _ set, List.map_flatMap, List.mem_flatMap, List.map_cons,
    List.mem_cons, nested, List.mem_filterMap, Option.mem_toList]
  constructor
  · rintro ⟨selection, member, rfl | ⟨nested, found, deeper⟩⟩
    · exact .inl member
    · exact .inr ⟨nested, ⟨selection, member, found⟩, deeper⟩
  · rintro (member | ⟨nested, ⟨selection, member, found⟩, deeper⟩)
    · exact ⟨inner, member, .inl rfl⟩
    · exact ⟨selection, member, .inr ⟨nested, found, deeper⟩⟩

theorem mem_own_spreads {set : SelectionSet} {spread : FragmentSpread} :
    spread ∈ set.ownSpreads ↔ Selection.spread spread ∈ set.selections := by
  rw [SelectionSet.ownSpreads, List.mem_filterMap]
  constructor
  · rintro ⟨selection, member, same⟩
    cases selection with
    | spread s =>
        cases same
        exact member
    | field f => cases same
    | inline f => cases same
  · intro member
    exact ⟨_, member, rfl⟩

theorem mem_spreads_of (sets : List SelectionSet) (spread : FragmentSpread) :
    spread ∈ spreadsOf sets ↔ ∃ set ∈ sets, Selection.spread spread ∈ set.all := by
  induction sets using spreadsOf.induct with
  | case1 => simp [spreadsOf]
  | case2 set pending ih =>
      -- What is nested in the set goes to the front, which makes no difference to membership.
      rw [spreadsOf, List.mem_append, ih, mem_own_spreads]
      simp only [List.mem_append, List.mem_reverse, List.mem_cons, or_and_right, exists_or,
        exists_eq_left]
      rw [SelectionSet.mem_all, or_assoc]

theorem SelectionSet.mem_spreads (set : SelectionSet) (spread : FragmentSpread) :
    spread ∈ set.spreads ↔ Selection.spread spread ∈ set.all := by
  rw [spreads, mem_spreads_of]
  simp only [List.mem_singleton, exists_eq_left]

end Spreads

section Search
namespace Search

variable {document : Document} {root : SelectionSet}

/-- Every spread in a set was met. -/
def Seen (search : Search) (set : SelectionSet) : Prop :=
  ∀ spread, Selection.spread spread ∈ set.all → spread.fragment ∈ search.met

/-- A set is being searched, or will be, or was. -/
def Covers (search : Search) (current : List SelectionSet) (set : SelectionSet) : Prop :=
  set ∈ current ∨ set ∈ search.pending ∨ search.Seen set

/-- What holds at any time of a search: the names that were met are used, and a name that
is used was met or will be. -/
structure Correct (document : Document) (root : SelectionSet) (current : List SelectionSet)
    (search : Search) : Prop where
  met : ∀ name ∈ search.met, document.Uses root name
  pending : ∀ set ∈ search.pending, ∀ spread, Selection.spread spread ∈ set.all →
    document.Uses root spread.fragment
  found : ∀ name, name ∈ search.found.map Fragment.name ↔
    name ∈ search.met ∧ (document.fragment? name).isSome
  root : search.Covers current root
  follow : ∀ name ∈ search.met, ∀ fragment, document.fragment? name = some fragment →
    search.Covers current fragment.selectionSet

variable {current : List SelectionSet} {search next : Search}

theorem Covers.mono {set : SelectionSet} (covers : search.Covers current set)
    (pending : ∀ set ∈ search.pending, set ∈ next.pending)
    (met : ∀ name ∈ search.met, name ∈ next.met) : next.Covers current set := by
  rcases covers with now | later | seen
  · exact .inl now
  · exact .inr (.inl (pending set later))
  · exact .inr (.inr fun spread inside => met _ (seen spread inside))

theorem meet_correct (correct : Correct document root current search) {spread : FragmentSpread}
    (used : document.Uses root spread.fragment) :
    Correct document root current (meet document search spread) ∧
      spread.fragment ∈ (meet document search spread).met ∧
      ∀ name ∈ search.met, name ∈ (meet document search spread).met := by
  rw [meet]
  split
  · next known => exact ⟨correct, List.contains_iff_mem.mp known, fun _ => id⟩
  · next fresh =>
    have metMore : ∀ name ∈ search.met, name ∈ spread.fragment :: search.met :=
      fun _ => List.mem_cons_of_mem _
    have met : ∀ name ∈ spread.fragment :: search.met, document.Uses root name :=
      List.forall_mem_cons.mpr ⟨used, correct.met⟩
    split
    · next undefined =>
      refine ⟨⟨met, correct.pending, fun name => ?_, correct.root.mono (fun _ => id) metMore, ?_⟩,
        List.mem_cons_self, metMore⟩
      · rw [correct.found, List.mem_cons, or_and_right]
        refine ⟨.inr, fun either => either.resolve_left ?_⟩
        rintro ⟨rfl, defined⟩
        simp [undefined] at defined
      · intro name known fragment defined
        rcases List.mem_cons.mp known with rfl | before
        · simp [undefined] at defined
        · exact (correct.follow name before fragment defined).mono (fun _ => id) metMore
    · next fragment defined =>
      have named : fragment.name = spread.fragment := (mem_fragments defined).2
      have pendingMore : ∀ set ∈ search.pending, set ∈ fragment.selectionSet :: search.pending :=
        fun _ => List.mem_cons_of_mem _
      refine ⟨⟨met, ?_, fun name => ?_, correct.root.mono pendingMore metMore, ?_⟩,
        List.mem_cons_self, metMore⟩
      · intro set waiting inner inside
        rcases List.mem_cons.mp waiting with rfl | before
        · exact .follow used defined inside
        · exact correct.pending set before inner inside
      · rw [List.map_append, List.mem_append, correct.found, List.mem_cons, or_and_right,
          List.map_singleton, List.mem_singleton, named, or_comm]
        refine or_congr_left ⟨fun same => ⟨same, ?_⟩, fun same => same.1⟩
        rw [same, defined]
        rfl
      · intro name known other defined'
        rcases List.mem_cons.mp known with rfl | before
        · cases defined.symm.trans defined'
          exact .inr (.inl List.mem_cons_self)
        · exact (correct.follow name before other defined').mono pendingMore metMore

theorem meet_all_correct (spreads : List FragmentSpread)
    (correct : Correct document root current search)
    (used : ∀ spread ∈ spreads, document.Uses root spread.fragment) :
    Correct document root current (meetAll document search spreads) ∧
      (∀ spread ∈ spreads, spread.fragment ∈ (meetAll document search spreads).met) ∧
      ∀ name ∈ search.met, name ∈ (meetAll document search spreads).met := by
  induction spreads generalizing search with
  | nil => exact ⟨correct, fun _ member => absurd member List.not_mem_nil, fun _ => id⟩
  | cons spread rest ih =>
      obtain ⟨first, now, before⟩ := meet_correct correct (used spread List.mem_cons_self)
      obtain ⟨all, later, kept⟩ := ih first fun other member =>
        used other (List.mem_cons_of_mem _ member)
      exact ⟨all, List.forall_mem_cons.mpr ⟨kept _ now, later⟩,
        fun name known => kept name (before name known)⟩

theorem step_correct {set : SelectionSet} {pending : List SelectionSet}
    (correct : Correct document root [] search) (waiting : search.pending = set :: pending) :
    Correct document root [] (meetAll document { search with pending := pending } set.spreads) := by
  have taken {other : SelectionSet} (covers : search.Covers [] other) :
      Covers { search with pending := pending } [set] other := by
    rcases covers with now | later | seen
    · exact absurd now List.not_mem_nil
    · rw [waiting] at later
      rcases List.mem_cons.mp later with rfl | later
      · exact .inl List.mem_cons_self
      · exact .inr (.inl later)
    · exact .inr (.inr seen)
  have opened : Correct document root [set] { search with pending := pending } :=
    ⟨correct.met, fun other later => correct.pending other (waiting ▸ List.mem_cons_of_mem _ later),
      correct.found, taken correct.root,
      fun name known fragment defined => taken (correct.follow name known fragment defined)⟩
  have used : ∀ spread ∈ set.spreads, document.Uses root spread.fragment := fun spread inside =>
    correct.pending set (waiting ▸ List.mem_cons_self) spread (set.mem_spreads spread |>.mp inside)
  obtain ⟨after, seen, _⟩ := meet_all_correct set.spreads opened used
  have done {other : SelectionSet}
      (covers : Covers (meetAll document { search with pending := pending } set.spreads)
        [set] other) :
      Covers (meetAll document { search with pending := pending } set.spreads) [] other := by
    rcases covers with now | rest
    · rw [List.mem_singleton.mp now]
      exact .inr (.inr fun spread inside => seen spread (set.mem_spreads spread |>.mpr inside))
    · exact .inr rest
  exact ⟨after.met, after.pending, after.found, done after.root,
    fun name known fragment defined => done (after.follow name known fragment defined)⟩

/-- When nothing is left to search, every name that is used was met. -/
theorem met_of_used (correct : Correct document root [] search) (idle : search.pending = [])
    {name : String} (used : document.Uses root name) : name ∈ search.met := by
  have seen {set : SelectionSet} (covers : search.Covers [] set) : search.Seen set := by
    rcases covers with now | later | seen
    · exact absurd now List.not_mem_nil
    · exact absurd (idle ▸ later) List.not_mem_nil
    · exact seen
  -- Every set that a use goes through was searched, so the spread it ends with was met.
  induction used with
  | spread found => exact seen correct.root _ found
  | follow _ defined found ih => exact seen (correct.follow _ ih _ defined) _ found

theorem run_found (correct : Correct document root [] search) (name : String) :
    name ∈ (run document search).map Fragment.name ↔
      document.Uses root name ∧ (document.fragment? name).isSome := by
  induction search using run.induct document with
  | case1 search idle =>
      rw [run, idle, correct.found]
      exact and_congr_left fun _ => ⟨correct.met name, met_of_used correct idle⟩
  | case2 search set pending waiting ih =>
      have next := ih (step_correct correct waiting)
      rw [run]
      split
      · next idle => exact absurd (waiting.symm.trans idle) (List.cons_ne_nil _ _)
      · next other rest same =>
        cases waiting.symm.trans same
        exact next

end Search

theorem Document.mem_reached (document : Document) (operation : Operation) (name : String) :
    name ∈ (document.reached operation).map Fragment.name ↔
      document.Uses operation.selectionSet name ∧ (document.fragment? name).isSome := by
  refine Search.run_found ⟨?_, ?_, ?_, ?_, ?_⟩ name
  · intro _ member
    exact absurd member List.not_mem_nil
  · intro set waiting spread inside
    rw [List.mem_singleton.mp waiting] at inside
    exact .spread inside
  · simp
  · exact .inr (.inl List.mem_cons_self)
  · intro _ member
    exact absurd member List.not_mem_nil

end Search

section Uses
variable {document document' : Document} {set : SelectionSet} {name : String}

/-- What is used is used in another document that has the fragments of all used names. -/
theorem Document.Uses.mono (used : document.Uses set name)
    (defines : ∀ name fragment, document.Uses set name →
      document.fragment? name = some fragment → document'.fragment? name = some fragment) :
    document'.Uses set name := by
  induction used with
  | spread found => exact .spread found
  | follow used defined found ih => exact .follow ih (defines _ _ used defined) found

end Uses
end GraphQL
