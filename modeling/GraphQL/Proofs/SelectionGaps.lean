import GraphQL.Proofs.FieldFindings

/-! Documents with a gap in the place of a selection. A gap can be filled with any selection,
which makes a document of it, and every selection of a document fills a gap. What is put
into a gap changes neither how many selections come before it nor what its parent is. -/
namespace GraphQL

section Selections

def Selection.all (selection : Selection) : List Selection :=
  selection :: selection.nested?.toList.flatMap SelectionSet.all

def countAll (selections : List Selection) : Nat := (selections.flatMap Selection.all).length

variable {schema : Schema} {parent? : Option SchemaType}

def SelectionSet.parented (schema : Schema) (parent? : Option SchemaType) (set : SelectionSet) :
    List (Option SchemaType × Selection) :=
  set.sites (Selection.parentBelow schema) parent?

/-- The selection and all that are nested in it, each with its parent if that is known. -/
def Selection.parented (schema : Schema) (parent? : Option SchemaType) (selection : Selection) :
    List (Option SchemaType × Selection) :=
  (parent?, selection) :: selection.nested?.toList.flatMap
    (SelectionSet.parented schema (selection.parentBelow schema parent?))

theorem parented_of_set (set : SelectionSet) :
    set.parented schema parent? = set.selections.flatMap (Selection.parented schema parent?) :=
  set.sites_eq (Selection.parentBelow schema) parent?

theorem parented_nested {selection : Selection} {nested : SelectionSet}
    (found : selection.nested? = some nested) :
    selection.parented schema parent? =
      (parent?, selection) :: nested.parented schema (selection.parentBelow schema parent?) := by
  rw [Selection.parented, found, Option.toList_some, List.flatMap_singleton]

theorem parented_all (selection : Selection) :
    (selection.parented schema parent?).map Prod.snd = selection.all := by
  rw [Selection.parented, Selection.all, List.map_cons, List.map_flatMap]
  simp only [SelectionSet.parented, SelectionSet.sites_selections]

theorem count_parented (selections : List Selection) :
    (selections.flatMap (Selection.parented schema parent?)).length = countAll selections := by
  rw [countAll, ← List.length_map Prod.snd, List.map_flatMap]
  simp only [parented_all]

theorem split_of_flatMap {α β : Type} {items : List α} {each : α → List β} {before after : List β}
    {item : β} (split : items.flatMap each = before ++ item :: after) :
    ∃ first source rest inner outer, items = first ++ source :: rest ∧
      each source = inner ++ item :: outer ∧ before = first.flatMap each ++ inner := by
  induction items generalizing before with
  | nil =>
      cases before <;> cases split
  | cons head tail ih =>
      rw [List.flatMap_cons] at split
      rcases List.append_eq_append_iff.mp split with ⟨more, rfl, later⟩ | ⟨more, here, later⟩
      · obtain ⟨first, source, rest, inner, outer, rfl, found, rfl⟩ := ih later
        exact ⟨head :: first, source, rest, inner, outer, rfl, found, by simp⟩
      · cases more with
        | nil =>
            have start : tail.flatMap each = [] ++ item :: after := later.symm
            obtain ⟨first, source, rest, inner, outer, rfl, found, none_before⟩ := ih start
            refine ⟨head :: first, source, rest, inner, outer, rfl, found, ?_⟩
            rw [List.append_nil] at here
            rw [List.flatMap_cons, List.append_assoc, ← none_before, List.append_nil, here]
        | cons next outer =>
            cases later
            exact ⟨[], head, tail, before, outer, rfl, here, rfl⟩

end Selections

section Gaps

/-- A selection set without one of the selections in it or nested in it. -/
inductive SelectionGap where
  | here (place : Position) (before after : List Selection)
  | field (place : Position) (before after : List Selection) (field : Field) (inner : SelectionGap)
  | inline (place : Position) (before after : List Selection) (fragment : InlineFragment)
      (inner : SelectionGap)

namespace SelectionGap

def fill (selection : Selection) : SelectionGap → SelectionSet
  | here place before after => ⟨place, before ++ selection :: after⟩
  | field place before after f inner =>
      ⟨place, before ++ .field { f with selectionSet? := some (inner.fill selection) } :: after⟩
  | inline place before after f inner =>
      ⟨place, before ++ .inline { f with selectionSet := inner.fill selection } :: after⟩

/-- How many selections come before the one that is put into the gap. Those that it is nested
in are among them. -/
def number : SelectionGap → Nat
  | here _ before _ => countAll before
  | field _ before _ _ inner => countAll before + (inner.number + 1)
  | inline _ before _ _ inner => countAll before + (inner.number + 1)

/-- The parent of what is put into the gap. -/
def parent? (schema : Schema) (enclosing? : Option SchemaType) : SelectionGap → Option SchemaType
  | here _ _ _ => enclosing?
  | field _ _ _ f inner =>
      inner.parent? schema ((Selection.field f).parentBelow schema enclosing?)
  | inline _ _ _ f inner =>
      inner.parent? schema ((Selection.inline f).parentBelow schema enclosing?)

variable {schema : Schema} {enclosing? : Option SchemaType}

theorem parented_around {place : Position} {before after : List Selection} {holder : Selection}
    {nested : SelectionSet} (found : holder.nested? = some nested)
    {earlier middle later : List (Option SchemaType × Selection)}
    (split : nested.parented schema (holder.parentBelow schema enclosing?) =
      earlier ++ (middle ++ later)) :
    ∃ earlier' later', earlier'.length = countAll before + (earlier.length + 1) ∧
      (SelectionSet.mk place (before ++ holder :: after)).parented schema enclosing? =
        earlier' ++ (middle ++ later') := by
  let each := Selection.parented schema enclosing?
  refine ⟨before.flatMap each ++ (enclosing?, holder) :: earlier, later ++ after.flatMap each,
    ?_, ?_⟩
  · rw [List.length_append, count_parented, List.length_cons]
  · rw [parented_of_set, List.flatMap_append, List.flatMap_cons, parented_nested found, split]
    simp [each]

/-- Filling the gap: what stands before it may depend on the selection, but not how much that
is, and not the parent of the selection. -/
theorem parented_fill (schema : Schema) (gap : SelectionGap) (enclosing? : Option SchemaType)
    (selection : Selection) : ∃ before after, before.length = gap.number ∧
      (gap.fill selection).parented schema enclosing? =
        before ++ (selection.parented schema (gap.parent? schema enclosing?) ++ after) := by
  induction gap generalizing enclosing? with
  | here place before after =>
      let each := Selection.parented schema enclosing?
      refine ⟨before.flatMap each, after.flatMap each, count_parented before, ?_⟩
      rw [fill, parented_of_set, List.flatMap_append, List.flatMap_cons]
      rfl
  | field place before after f inner ih =>
      obtain ⟨earlier, later, count, split⟩ :=
        ih ((Selection.field f).parentBelow schema enclosing?)
      let holder : Selection := .field { f with selectionSet? := some (inner.fill selection) }
      have found : holder.nested? = some (inner.fill selection) := rfl
      rw [number, ← count]
      exact parented_around found split
  | inline place before after f inner ih =>
      obtain ⟨earlier, later, count, split⟩ :=
        ih ((Selection.inline f).parentBelow schema enclosing?)
      let holder : Selection := .inline { f with selectionSet := inner.fill selection }
      have found : holder.nested? = some (inner.fill selection) := rfl
      rw [number, ← count]
      exact parented_around found split

theorem gap_around {holder selection : Selection} {gap : SelectionGap}
    (found : holder.nested? = some (gap.fill selection)) (place : Position)
    (before after : List Selection) : ∃ outer : SelectionGap,
      outer.fill selection = ⟨place, before ++ holder :: after⟩ ∧
        outer.number = countAll before + (gap.number + 1) := by
  cases holder with
  | field f =>
      refine ⟨.field place before after f gap, ?_, rfl⟩
      rcases f with ⟨_, _, _, _, _, set?⟩
      obtain rfl : set? = some (gap.fill selection) := found
      rfl
  | spread f => cases found
  | inline f =>
      refine ⟨.inline place before after f gap, ?_, rfl⟩
      rcases f with ⟨_, _, _, set⟩
      obtain rfl : set = gap.fill selection := Option.some.inj found
      rfl

/-- Whatever stands in the listing of a set fills a gap of the set. -/
theorem gap_of_parented {set : SelectionSet} {before after : List (Option SchemaType × Selection)}
    {site : Option SchemaType × Selection}
    (split : set.parented schema enclosing? = before ++ site :: after) :
    ∃ gap : SelectionGap, gap.fill site.2 = set ∧ gap.number = before.length := by
  induction set using SelectionSet.nested_induction generalizing enclosing? before after with
  | step set ih =>
      rw [parented_of_set] at split
      obtain ⟨first, holder, rest, inner, outer, own, here, rfl⟩ := split_of_flatMap split
      have listed : holder ∈ set.selections := own ▸ List.mem_append_right _ List.mem_cons_self
      obtain ⟨place, selections⟩ := set
      obtain rfl : selections = first ++ holder :: rest := own
      rw [List.length_append, count_parented]
      -- The item is the holder itself, or it stands in the set that is nested in the holder.
      cases inner with
      | nil =>
          cases here
          exact ⟨.here place first rest, rfl, rfl⟩
      | cons top below =>
          obtain ⟨_, nested_here⟩ := List.cons.inj here
          cases found : holder.nested? with
          | none =>
              rw [found] at nested_here
              cases below <;> cases nested_here
          | some nested =>
              rw [found, Option.toList_some, List.flatMap_singleton] at nested_here
              obtain ⟨gap, rfl, count⟩ := ih holder listed nested found nested_here
              rw [List.length_cons, ← count]
              exact gap_around found place first rest

end SelectionGap
end Gaps

section Documents

def Definition.selections : Definition → List Selection
  | .operation d => d.selectionSet.all
  | .fragment d => d.selectionSet.all
  | _ => []

def Definition.parented (schema : Schema) (definition : Definition) :
    List (Option SchemaType × Selection) :=
  (definition.selected? schema).toList.flatMap fun selected => selected.2.parented schema selected.1

/-- An operation or a fragment with a gap. -/
inductive DefinitionGap where
  | operation (operation : Operation) (gap : SelectionGap)
  | fragment (fragment : Fragment) (gap : SelectionGap)

namespace DefinitionGap

def fill (selection : Selection) : DefinitionGap → Definition
  | operation d gap => .operation { d with selectionSet := gap.fill selection }
  | fragment d gap => .fragment { d with selectionSet := gap.fill selection }

def number : DefinitionGap → Nat
  | operation _ gap => gap.number
  | fragment _ gap => gap.number

def parent? (schema : Schema) : DefinitionGap → Option SchemaType
  | operation d gap => gap.parent? schema ((schema.root? d.kind).map .object)
  | fragment d gap =>
      gap.parent? schema ((schema.type? d.typeCondition.name).filter SchemaType.isComposite)

end DefinitionGap

structure DocumentGap where
  before : List Definition
  definition : DefinitionGap
  after : List Definition

namespace DocumentGap

def fill (selection : Selection) (gap : DocumentGap) : Document :=
  ⟨gap.before ++ gap.definition.fill selection :: gap.after⟩

/-- How many selections of the document come before the one that is put into the gap. -/
def number (gap : DocumentGap) : Nat :=
  (gap.before.flatMap Definition.selections).length + gap.definition.number

def parent? (schema : Schema) (gap : DocumentGap) : Option SchemaType :=
  gap.definition.parent? schema

end DocumentGap

variable {schema : Schema}

theorem count_definitions (definitions : List Definition) :
    (definitions.flatMap (Definition.parented schema)).length =
      (definitions.flatMap Definition.selections).length := by
  have listed (definition : Definition) :
      (definition.parented schema).map Prod.snd = definition.selections := by
    cases definition with
    | operation d | fragment d =>
        rw [Definition.parented, Definition.selected?, Option.toList_some, List.flatMap_singleton]
        exact SelectionSet.sites_selections _ _ _
    | _ => rfl
  rw [← List.length_map Prod.snd, List.map_flatMap]
  simp only [listed]

theorem DefinitionGap.parented_fill (schema : Schema) (gap : DefinitionGap)
    (selection : Selection) :
    ∃ before after, before.length = gap.number ∧ (gap.fill selection).parented schema =
      before ++ (selection.parented schema (gap.parent? schema) ++ after) := by
  cases gap with
  | operation d gap | fragment d gap =>
      rw [fill, Definition.parented, Definition.selected?, Option.toList_some,
        List.flatMap_singleton]
      exact gap.parented_fill schema _ selection

theorem DocumentGap.parented_fill (schema : Schema) (gap : DocumentGap) (selection : Selection) :
    ∃ before after, before.length = gap.number ∧ (gap.fill selection).parented schema =
      before ++ (selection.parented schema (gap.parent? schema) ++ after) := by
  let each := Definition.parented schema
  obtain ⟨earlier, later, count, own⟩ := gap.definition.parented_fill schema selection
  refine ⟨gap.before.flatMap each ++ earlier, later ++ gap.after.flatMap each, ?_, ?_⟩
  · rw [List.length_append, count_definitions, count, number]
  · have listed : (gap.fill selection).parented schema =
        (gap.before ++ gap.definition.fill selection :: gap.after).flatMap each := rfl
    rw [listed, List.flatMap_append, List.flatMap_cons]
    simp only [each, own, parent?, List.append_assoc]

theorem DefinitionGap.of_parented {definition : Definition}
    {before after : List (Option SchemaType × Selection)} {site : Option SchemaType × Selection}
    (split : definition.parented schema = before ++ site :: after) :
    ∃ gap : DefinitionGap, gap.fill site.2 = definition ∧ gap.number = before.length := by
  cases definition with
  | operation d =>
      rw [Definition.parented, Definition.selected?, Option.toList_some,
        List.flatMap_singleton] at split
      obtain ⟨gap, filled, count⟩ := SelectionGap.gap_of_parented split
      exact ⟨.operation d gap, by rw [fill, filled], count⟩
  | fragment d =>
      rw [Definition.parented, Definition.selected?, Option.toList_some,
        List.flatMap_singleton] at split
      obtain ⟨gap, filled, count⟩ := SelectionGap.gap_of_parented split
      exact ⟨.fragment d gap, by rw [fill, filled], count⟩
  | _ => cases before <;> cases split

theorem DocumentGap.of_parented {document : Document}
    {before after : List (Option SchemaType × Selection)} {site : Option SchemaType × Selection}
    (split : document.parented schema = before ++ site :: after) :
    ∃ gap : DocumentGap, gap.fill site.2 = document ∧ gap.number = before.length := by
  obtain ⟨first, definition, rest, inner, outer, own, here, rfl⟩ := split_of_flatMap split
  obtain ⟨gap, filled, count⟩ := DefinitionGap.of_parented here
  refine ⟨⟨first, gap, rest⟩, ?_, ?_⟩
  · rw [fill, filled, ← own]
  · rw [List.length_append, number, ← count]
    exact congrArg (· + gap.number) (count_definitions first).symm

theorem DefinitionGap.intact_fill (gap : DefinitionGap) {selection : Selection}
    (intact : (Node.definition (gap.fill selection)).Intact) (other : Selection) :
    (Node.definition (gap.fill other)).Intact := by
  have set (set : SelectionSet) : (Node.selectionSet set).Intact := Node.Executable.intact trivial
  apply Node.Intact.of_children rfl
  intro child member
  cases gap with
  | operation d gap | fragment d gap =>
      rcases List.mem_append.mp member with beside | filled
      · exact intact.child (List.mem_append_left _ beside)
      · rw [List.mem_singleton.mp filled]
        exact set (gap.fill other)

/-- A document stays free of malformed nodes when something else is put into its gap. -/
theorem DocumentGap.intact_fill (gap : DocumentGap) {selection : Selection}
    (intact : (Node.document (gap.fill selection)).Intact) (other : Selection) :
    (Node.document (gap.fill other)).Intact := by
  have each (definition : Definition) (listed : definition ∈ (gap.fill selection).definitions) :
      (Node.definition definition).Intact := intact.child (List.mem_map_of_mem listed)
  apply Node.Intact.of_children
  · simp [Node.flaw?, fill]
  · intro child member
    obtain ⟨definition, listed, rfl⟩ := List.mem_map.mp member
    rcases List.mem_append.mp listed with before | later
    · exact each definition (List.mem_append_left _ before)
    · rcases List.mem_cons.mp later with rfl | after
      · have own := each _ (List.mem_append_right _ List.mem_cons_self)
        exact gap.definition.intact_fill own other
      · exact each definition (List.mem_append_right _ (List.mem_cons_of_mem _ after))

end Documents
end GraphQL
