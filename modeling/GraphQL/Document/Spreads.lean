import GraphQL.Document.Basic

/-! Which fragments a selection set spreads, and which fragments an operation reaches by
following spreads. Both are found with a stack of selection sets that are still to be
searched, and their order is the order of that search. -/
namespace GraphQL

section Nesting

def Selection.nested? : Selection → Option SelectionSet
  | .field f => f.selectionSet?
  | .spread _ => none
  | .inline f => some f.selectionSet

def Selection.spread? : Selection → Option FragmentSpread
  | .spread s => some s
  | _ => none

mutual

/-- How many selection sets a selection set is made of, itself included. -/
def SelectionSet.count : SelectionSet → Nat
  | ⟨_, selections⟩ => countSelections selections + 1

def countSelections : List Selection → Nat
  | [] => 0
  | selection :: rest => selection.count + countSelections rest

def Selection.count : Selection → Nat
  | .field field => field.count
  | .spread _ => 0
  | .inline ⟨_, _, _, set⟩ => set.count

def Field.count : Field → Nat
  | ⟨_, _, _, _, _, set⟩ => countOptional set

def countOptional : Option SelectionSet → Nat
  | none => 0
  | some set => set.count

end

def SelectionSet.nested (set : SelectionSet) : List SelectionSet :=
  set.selections.filterMap Selection.nested?

def countSets : List SelectionSet → Nat
  | [] => 0
  | set :: rest => set.count + countSets rest

theorem count_append (sets more : List SelectionSet) :
    countSets (sets ++ more) = countSets sets + countSets more := by
  induction sets with
  | nil => simp [countSets]
  | cons set rest ih =>
      simp only [List.cons_append, countSets, ih]
      omega

theorem count_reverse (sets : List SelectionSet) : countSets sets.reverse = countSets sets := by
  induction sets with
  | nil => rfl
  | cons set rest ih =>
      simp only [List.reverse_cons, count_append, countSets, ih]
      omega

theorem count_nested (selection : Selection) :
    selection.count = countSets selection.nested?.toList := by
  cases selection with
  | field f =>
      cases f with
      | mk _ _ _ _ _ set =>
        cases set <;>
          simp [Selection.count, Field.count, countOptional, Selection.nested?, countSets]
  | spread s => simp [Selection.count, Selection.nested?, countSets]
  | inline f =>
      cases f
      simp [Selection.count, Selection.nested?, countSets]

theorem count_selections (selections : List Selection) :
    countSelections selections = countSets (selections.filterMap Selection.nested?) := by
  induction selections with
  | nil => simp [countSelections, countSets]
  | cons selection rest ih =>
      simp only [countSelections, count_nested, ih, List.filterMap_cons]
      cases selection.nested? <;> simp [countSets]

theorem SelectionSet.count_eq (set : SelectionSet) : set.count = countSets set.nested + 1 := by
  cases set
  simp [SelectionSet.count, count_selections, SelectionSet.nested]

end Nesting

section Spreads

def SelectionSet.ownSpreads (set : SelectionSet) : List FragmentSpread :=
  set.selections.filterMap Selection.spread?

def spreadsOf : List SelectionSet → List FragmentSpread
  | [] => []
  | set :: pending => set.ownSpreads ++ spreadsOf (set.nested.reverse ++ pending)
termination_by pending => countSets pending
decreasing_by
  have same := set.count_eq
  simp only [count_append, count_reverse, countSets]
  omega

/-- The spreads within a selection set at any depth. They are not followed. -/
def SelectionSet.spreads (set : SelectionSet) : List FragmentSpread := spreadsOf [set]

end Spreads

section Reach

/-- Of definitions with one name the last counts. -/
def Document.fragment? (document : Document) (name : String) : Option Fragment :=
  document.fragments.reverse.find? fun fragment => fragment.name == name

/-- A search for fragments: the names that were met, the selection sets that are still to
be searched and the fragments that were found. -/
structure Search where
  met : List String
  pending : List SelectionSet
  found : List Fragment

namespace Search

def meet (document : Document) (search : Search) (spread : FragmentSpread) : Search :=
  if search.met.contains spread.fragment then search
  else
    match document.fragment? spread.fragment with
    | none => { search with met := spread.fragment :: search.met }
    | some fragment =>
        ⟨spread.fragment :: search.met, fragment.selectionSet :: search.pending,
          search.found ++ [fragment]⟩

def meetAll (document : Document) (search : Search) (spreads : List FragmentSpread) : Search :=
  spreads.foldl (meet document) search

/-- The definitions whose names were not met yet. -/
def unmet (document : Document) (search : Search) : List Fragment :=
  document.fragments.filter fun fragment => !search.met.contains fragment.name

def remaining (document : Document) (search : Search) : Nat :=
  (search.unmet document).length + search.pending.length

theorem filter_length_lt {α : Type} {items : List α} {p q : α → Bool} {item : α}
    (narrower : ∀ a, q a = true → p a = true) (member : item ∈ items)
    (before : p item = true) (after : q item = false) :
    (items.filter q).length < (items.filter p).length := by
  induction items with
  | nil => simp at member
  | cons first rest ih =>
      have atMost : (rest.filter q).length ≤ (rest.filter p).length := by
        simpa [List.countP_eq_length_filter] using
          List.countP_mono_left (l := rest) fun a _ => narrower a
      rcases List.mem_cons.mp member with rfl | inside
      · simp only [List.filter_cons, before, after, ↓reduceIte, List.length_cons]
        exact Nat.lt_succ_of_le atMost
      · have shorter := ih inside
        by_cases hq : q first = true
        · simp [hq, narrower first hq, shorter]
        · by_cases hp : p first = true
          · simp only [List.filter_cons, hq, hp, ↓reduceIte, List.length_cons]
            exact Nat.lt_succ_of_lt shorter
          · simp [hq, hp, shorter]

theorem mem_fragments {document : Document} {name : String} {fragment : Fragment}
    (h : document.fragment? name = some fragment) :
    fragment ∈ document.fragments ∧ fragment.name = name := by
  refine ⟨List.mem_reverse.mp (List.mem_of_find?_eq_some h), ?_⟩
  simpa using List.find?_some h

theorem meet_remaining (document : Document) (search : Search) (spread : FragmentSpread) :
    (meet document search spread).remaining document ≤ search.remaining document := by
  unfold meet
  split
  · exact Nat.le_refl _
  · next fresh =>
    have narrower (fragment : Fragment) :
        (!(spread.fragment :: search.met).contains fragment.name) = true →
          (!search.met.contains fragment.name) = true := by
      simp only [List.contains_cons, Bool.not_eq_true', Bool.or_eq_false_iff]
      exact fun h => h.2
    split
    · simp only [remaining, unmet]
      have fewer : (document.fragments.filter fun fragment =>
          !(spread.fragment :: search.met).contains fragment.name).length ≤
          (document.fragments.filter fun fragment =>
            !search.met.contains fragment.name).length := by
        simpa [List.countP_eq_length_filter] using
          List.countP_mono_left (l := document.fragments) fun fragment _ => narrower fragment
      omega
    · next fragment found =>
      have present := mem_fragments found
      have fewer := filter_length_lt narrower present.1
        (by simpa [present.2] using fresh) (by simp [present.2])
      simp only [remaining, unmet, List.length_cons]
      omega

theorem meet_all_remaining (document : Document) (spreads : List FragmentSpread)
    (search : Search) :
    (meetAll document search spreads).remaining document ≤ search.remaining document := by
  induction spreads generalizing search with
  | nil => exact Nat.le_refl _
  | cons spread rest ih => exact Nat.le_trans (ih _) (meet_remaining document search spread)

def run (document : Document) (search : Search) : List Fragment :=
  match _h : search.pending with
  | [] => search.found
  | set :: pending =>
      run document (meetAll document { search with pending := pending } set.spreads)
termination_by search.remaining document
decreasing_by
  refine Nat.lt_of_le_of_lt (meet_all_remaining document _ _) ?_
  simp [remaining, unmet, _h]

end Search

/-- The fragments that an operation reaches through spreads, each one once. Spreads of
undefined fragments lead nowhere. -/
def Document.reached (document : Document) (operation : Operation) : List Fragment :=
  Search.run document ⟨[], [operation.selectionSet], []⟩

end Reach

end GraphQL
