import GraphQL.Proofs.DocumentNodes
import GraphQL.Proofs.RuleCompleteness
import GraphQL.Proofs.UnusedRemoval

/-! What is found about the fields of a document. The parent that a field is selected from
is told by recursion over the selections, without a tour and its scope: it is unknown as
soon as a type on the way is missing or has no fields to select from. What the two rules
about fields report is then a matter of each field and its parent, and a field without a
known parent is no concern of theirs. -/
namespace GraphQL

open Inspection Attendee

section Parents
variable (schema : Schema)

/-- The type with which a field is declared for a parent. All parents have `__typename`. -/
def SchemaType.declared? (parent : SchemaType) (name : String) : Option TypeExpr :=
  if name = "__typename" then some typenameField.type
  else (Named.find? name parent.fields).map OutputField.type

/-- The parent of what is selected below a selection that has a parent itself. -/
def Selection.parentBelow (parent? : Option SchemaType) : Selection → Option SchemaType
  | .field f =>
      let type? := parent?.bind fun parent => parent.declared? f.name
      (type?.bind schema.innermost?).filter SchemaType.isComposite
  | .spread _ => none
  | .inline f =>
      match f.typeCondition? with
      | some condition => (schema.type? condition.name).filter SchemaType.isComposite
      | none => parent?

/-- The parent of what is selected first in a definition, and the selections. -/
def Definition.selected? : Definition → Option (Option SchemaType × SelectionSet)
  | .operation d => some ((schema.root? d.kind).map .object, d.selectionSet)
  | .fragment d =>
      some ((schema.type? d.typeCondition.name).filter SchemaType.isComposite, d.selectionSet)
  | _ => none

/-- The selections of a document at any depth, each with its parent if that is known. -/
def Document.parented (document : Document) : List (Option SchemaType × Selection) :=
  document.definitions.flatMap fun definition =>
    (definition.selected? schema).toList.flatMap fun selected =>
      selected.2.sites (Selection.parentBelow schema) selected.1

def knownField? : Option SchemaType × Selection → Option (SchemaType × Field)
  | (some parent, .field field) => some (parent, field)
  | _ => none

def Document.knownFields (document : Document) : List (SchemaType × Field) :=
  (document.parented schema).filterMap knownField?

end Parents

section Findings
variable (schema : Schema)

def undefinedField? (parent : SchemaType) (field : Field) : Option Finding :=
  if field.name = "__typename" ∨ ∃ definition ∈ parent.fields, definition.name = field.name then
    none
  else some (Rules.undefinedFieldFinding schema parent field)

/-- Nothing may be selected of a leaf, so what is selected of it is reported as a whole. A
field of another type is reported if nothing is selected of it. -/
def misusedField? (parent : SchemaType) (field : Field) : Option Finding :=
  (parent.declared? field.name).bind fun type =>
    (schema.innermost? type).bind fun core =>
      match core.isLeaf, field.selectionSet? with
      | true, some set =>
          some (.about (Rules.noSelectionAllowed field.name type.text) (.selectionSet set))
      | false, none =>
          some (.about (Rules.selectionRequired field.name type.text) (.selection (.field field)))
      | _, _ => none

end Findings

/-! Where selections are among the nodes: in the sets of operations and of fragments, and
in the sets that are nested in these. -/
section Unselecting

def Node.Unselecting (node : Node) : Prop := node.Selects fun _ => False

def Node.selection? : Node → Option Selection
  | .selection s => some s
  | _ => none

variable {β : Type} {each : Node → List β}

theorem quiet_map {α : Type} (quiet : ∀ child : Node, child.Unselecting → each child = [])
    (node : α → Node) (plain : ∀ item, (node item).Unselecting) (items : List α) :
    (items.map node).flatMap each = [] :=
  List.flatMap_eq_nil_iff.mpr (List.forall_mem_map.mpr fun item _ => quiet _ (plain item))

theorem selection_children (quiet : ∀ child : Node, child.Unselecting → each child = [])
    (selection : Selection) :
    (Node.selection selection).children.flatMap each =
      selection.nested?.toList.flatMap fun set => each (.selectionSet set) := by
  have arguments := quiet_map quiet Node.argument fun _ => trivial
  have directives := quiet_map quiet Node.directive fun _ => trivial
  cases selection with
  | field f =>
      rw [Node.children, Node.ofSelection, List.flatMap_append, List.flatMap_append, arguments,
        directives, List.nil_append, List.nil_append, Selection.nested?]
      cases f.selectionSet? <;> rfl
  | spread s => exact directives s.directives
  | inline f =>
      have condition : (f.typeCondition?.map fun type => Node.type (.named type)).toList.flatMap
          each = [] := by
        rw [Option.toList_map]
        exact quiet_map quiet (fun type => Node.type (.named type)) (fun _ => trivial) _
      rw [Node.children, Node.ofSelection, List.flatMap_append, List.flatMap_append, condition,
        directives, List.nil_append, List.nil_append, Selection.nested?, List.flatMap_singleton,
        Option.toList_some, List.flatMap_singleton]

theorem definition_children (quiet : ∀ child : Node, child.Unselecting → each child = [])
    (schema : Schema) (definition : Definition) :
    (Node.definition definition).children.flatMap each =
      (definition.selected? schema).toList.flatMap fun selected =>
        each (.selectionSet selected.2) := by
  have directives := quiet_map quiet Node.directive fun _ => trivial
  cases definition with
  | operation d =>
      have taken := quiet_map quiet Node.variableDefinition fun _ => trivial
      rw [Node.children, Node.ofDefinition, List.flatMap_append, List.flatMap_append, taken,
        directives, List.nil_append, List.nil_append, List.flatMap_singleton,
        Definition.selected?, Option.toList_some, List.flatMap_singleton]
  | fragment d =>
      have condition : each (.type (.named d.typeCondition)) = [] := quiet _ trivial
      rw [Node.children, Node.ofDefinition, List.cons_append, List.flatMap_cons,
        List.flatMap_append, condition, directives, List.nil_append, List.nil_append,
        List.flatMap_singleton, Definition.selected?, Option.toList_some, List.flatMap_singleton]
  | _ =>
      -- Below the definition of a type nothing is selected.
      refine List.flatMap_eq_nil_iff.mpr fun child member => quiet child ?_
      refine (Node.type_system_child _ ?_ child member).selects
      exact rfl

theorem unselecting_nodes (node : Node) (empty : node.Unselecting) :
    node.nodes.filterMap Node.selection? = [] := by
  induction node using Node.below_induction with
  | step node ih =>
      have own : node.selection? = none := by
        cases node with
        | selection s => cases empty.1
        | _ => rfl
      rw [Node.nodes_eq, List.filterMap_cons_none own, List.filterMap_flatMap]
      exact List.flatMap_eq_nil_iff.mpr fun child member =>
        ih child member (selects_child node empty child member)

theorem nodes_of_set (set : SelectionSet) :
    (Node.selectionSet set).nodes.filterMap Node.selection? = set.all := by
  induction set using SelectionSet.nested_induction with
  | step set ih =>
      rw [Node.nodes_eq, List.filterMap_cons_none rfl, List.filterMap_flatMap, Node.children,
        List.flatMap_map, SelectionSet.all, SelectionSet.sites_eq, List.map_flatMap]
      refine List.flatMap_congr fun selection member => ?_
      have own : (Node.selection selection).selection? = some selection := rfl
      rw [Node.nodes_eq, List.filterMap_cons_some own, List.filterMap_flatMap,
        selection_children unselecting_nodes, List.map_cons, List.map_flatMap]
      refine congrArg (selection :: ·) (List.flatMap_congr fun nested found => ?_)
      exact ih selection member nested (Option.mem_toList.mp found)

theorem nodes_of_definition (schema : Schema) (definition : Definition) :
    (Node.definition definition).nodes.filterMap Node.selection? =
      ((definition.selected? schema).toList.flatMap fun selected =>
        selected.2.sites (Selection.parentBelow schema) selected.1).map Prod.snd := by
  rw [Node.nodes_eq, List.filterMap_cons_none rfl, List.filterMap_flatMap,
    definition_children unselecting_nodes schema, List.map_flatMap]
  refine List.flatMap_congr fun selected _ => ?_
  rw [nodes_of_set, SelectionSet.sites_selections]

theorem parented_selections (schema : Schema) (document : Document) :
    (document.parented schema).map Prod.snd = document.nodes.filterMap Node.selection? := by
  have listed : document.nodes = .document document ::
      (document.definitions.map Node.definition).flatMap Node.nodes :=
    Node.nodes_eq (.document document)
  rw [listed, List.filterMap_cons_none rfl, List.filterMap_flatMap, List.flatMap_map,
    Document.parented, List.map_flatMap]
  exact List.flatMap_congr fun definition _ => (nodes_of_definition schema definition).symm

end Unselecting

/-! What is in scope at a field is what its parent says of it. -/
section Scopes
variable {schema : Schema} {view : View} {enclosing? : Option SchemaType}

theorem look_up_declared {parent : SchemaType} (composite : parent.isComposite = true)
    (name : String) :
    (Scope.lookupField parent name).map OutputField.type = parent.declared? name := by
  rw [Scope.lookupField, SchemaType.declared?, composite, Bool.and_true]
  by_cases reserved : name = "__typename"
  · rw [if_pos (show (name == typenameField.name) = true from beq_iff_eq.mpr reserved),
      if_pos reserved]
    rfl
  · rw [if_neg (show ¬ (name == typenameField.name) = true from mt beq_iff_eq.mp reserved),
      if_neg reserved]

theorem Schema.Built.declared_output (built : schema.Built) {parent : SchemaType}
    (member : parent ∈ schema.types) {name : String} {type : TypeExpr}
    (found : parent.declared? name = some type) : Scope.isOutput schema type = true := by
  rw [SchemaType.declared?] at found
  split at found
  · cases found
    have string : schema.innermost? typenameField.type = some (.builtin .string) := built.string
    rw [Scope.isOutput, string]
    rfl
  · obtain ⟨field, own, rfl⟩ := Option.map_eq_some_iff.mp found
    obtain ⟨core, known, output⟩ := built.field member (Named.mem_of_find? own)
    rw [Scope.isOutput, known]
    exact output

theorem parent_below (selection : Selection) (enclosing? : Option SchemaType) :
    (selection.inside schema enclosing?).filter SchemaType.isComposite =
      selection.parentBelow schema (enclosing?.filter SchemaType.isComposite) := by
  cases selection with
  | field f =>
      rw [Selection.inside, Selection.parentBelow]
      cases enclosing? with
      | none => rfl
      | some parent =>
          by_cases composite : parent.isComposite = true
          · rw [Option.filter_some_pos composite, Option.bind_some, Option.bind_some,
              ← look_up_declared composite, look_up_typed schema composite]
          · have unknown : parent.fieldType? schema f.name = none := if_neg composite
            rw [Option.filter_some_neg (Bool.eq_false_iff.mpr composite), Option.bind_some, unknown]
            rfl
  | spread s => rfl
  | inline f =>
      rw [Selection.inside, Selection.parentBelow]
      cases f.typeCondition? <;> rfl

theorem Within.declared (within : Within view enclosing?) (built : view.schema.Built)
    (field : Field) :
    (view.during ⟨.entering, .selection (.field field)⟩).scope.type? =
      (enclosing?.filter SchemaType.isComposite).bind fun parent =>
        parent.declared? field.name := by
  have entered : (view.during ⟨.entering, .selection (.field field)⟩).scope.type? =
      ((view.scope.fieldDefinition field.name).map OutputField.type).filter
        (Scope.isOutput view.schema) := rfl
  rw [entered, Scope.fieldDefinition, within.parent]
  cases known : enclosing?.filter SchemaType.isComposite with
  | none => rfl
  | some parent =>
      obtain ⟨same, composite⟩ := Option.filter_eq_some_iff.mp known
      rw [Option.bind_some, Option.bind_some, look_up_declared composite]
      cases found : parent.declared? field.name with
      | none => rfl
      | some type =>
          exact Option.filter_some_pos (built.declared_output (within.member parent same) found)

end Scopes

section Judging

/-- The rule judges each field by its parent, if that is known, and takes no notice of
nodes that are no fields. -/
structure Judges (rule : Rule) (judged? : Schema → SchemaType → Field → Option Finding) :
    Prop where
  own : rule.Local
  leaving : ∀ kind, rule.onLeave kind = none
  other : ∀ kind, kind ≠ .field → rule.onEnter kind = none
  field : ∀ view enclosing? field, Within view enclosing? → view.schema.Built →
    rule.reporter.react (view.during ⟨.entering, .selection (.field field)⟩)
        ⟨.entering, .selection (.field field)⟩ =
      (rule.reporter, ((enclosing?.filter SchemaType.isComposite).bind fun parent =>
        judged? view.schema parent field).toList, .ok .proceed)

theorem kind_ne_field {node : Node} (other : ∀ field, node ≠ .selection (.field field)) :
    node.kind ≠ .field := by
  cases node with
  | selection s =>
      cases s with
      | field f => exact absurd rfl (other f)
      | _ => nofun
  | definition d => cases d <;> nofun
  | value v =>
      rcases v with ⟨_, form⟩
      cases form <;> nofun
  | type t => cases t <;> nofun
  | _ => nofun

namespace Judges
variable {rule : Rule} {judged? : Schema → SchemaType → Field → Option Finding}

theorem unheard (judges : Judges rule judged?) {node : Node}
    (other : ∀ field, node ≠ .selection (.field field)) (view : View) :
    rule.reporter.react view ⟨.entering, node⟩ = (rule.reporter, [], .ok .proceed) :=
  entering_unheard (judges.other _ (kind_ne_field other)) view

theorem quiet (judges : Judges rule judged?) (depth : Nat) (view : View) (node : Node)
    (empty : node.Unselecting) : rule.reporter.solo depth view node.events = [] := by
  refine Reporter.Deaf.solo_nil (fun event member view => ?_) depth view
  rcases event with ⟨_ | _, inner⟩
  · exact judges.unheard (fun field same => selects_below empty member same) view
  · exact leaving_unheard (judges.leaving _) view

/-- What the rule finds about a selection, as far as its parent is known. -/
def judgedAt? (judged? : SchemaType → Field → Option Finding)
    (site : Option SchemaType × Selection) : Option Finding :=
  (knownField? site).bind fun known => judged? known.1 known.2

theorem selection_judged (judges : Judges rule judged?) {view : View}
    {enclosing? : Option SchemaType} (within : Within view enclosing?)
    (built : view.schema.Built) (selection : Selection) :
    rule.reporter.react (view.during ⟨.entering, .selection selection⟩)
        ⟨.entering, .selection selection⟩ =
      (rule.reporter, (judgedAt? (judged? view.schema)
        (enclosing?.filter SchemaType.isComposite, selection)).toList, .ok .proceed) := by
  cases selection with
  | field field =>
      rw [judges.field view enclosing? field within built]
      cases enclosing?.filter SchemaType.isComposite <;> rfl
  | spread spread =>
      have other (field : Field) : Node.selection (.spread spread) ≠ .selection (.field field) :=
        nofun
      rw [judges.unheard other]
      cases enclosing?.filter SchemaType.isComposite <;> rfl
  | inline fragment =>
      have other (field : Field) : Node.selection (.inline fragment) ≠ .selection (.field field) :=
        nofun
      rw [judges.unheard other]
      cases enclosing?.filter SchemaType.isComposite <;> rfl

/-- What the rule finds in a selection set: the type in scope is handed down as the parents
of the selections are. -/
theorem solo_set (judges : Judges rule judged?) (set : SelectionSet) (depth : Nat) (view : View)
    (enclosing? : Option SchemaType) (built : view.schema.Built) (knows : Knows view enclosing?) :
    rule.reporter.solo depth view (Node.selectionSet set).events =
      (set.sites (Selection.parentBelow view.schema)
        (enclosing?.filter SchemaType.isComposite)).filterMap
          (judgedAt? (judged? view.schema)) := by
  induction set using SelectionSet.nested_induction generalizing depth view enclosing? with
  | step set ih =>
      have within := knows.within set
      have other (field : Field) : Node.selectionSet set ≠ .selection (.field field) := nofun
      rw [judges.own.solo_entered (judges.leaving _) (judges.unheard other _), List.nil_append,
        Node.children, List.flatMap_map, SelectionSet.sites_eq, List.filterMap_flatMap]
      refine List.flatMap_congr fun selection member => ?_
      have judged := judges.selection_judged within built selection
      rw [judges.own.solo_entered (judges.leaving _) judged,
        selection_children (judges.quiet _ _), List.filterMap_eq_flatMap_toList,
        List.flatMap_cons]
      refine congrArg (_ ++ ·) ?_
      rw [← List.filterMap_eq_flatMap_toList, List.filterMap_flatMap]
      refine List.flatMap_congr fun nested listed => ?_
      have found := Option.mem_toList.mp listed
      have below := within.inside built found
      rw [← parent_below]
      exact ih selection member nested found _ _ _ built below

theorem solo_definition (judges : Judges rule judged?) (definition : Definition) (depth : Nat)
    (view : View) (built : view.schema.Built) :
    rule.reporter.solo depth view (Node.definition definition).events =
      ((definition.selected? view.schema).toList.flatMap fun selected =>
        selected.2.sites (Selection.parentBelow view.schema) selected.1).filterMap
          (judgedAt? (judged? view.schema)) := by
  have other (field : Field) : Node.definition definition ≠ .selection (.field field) := nofun
  rw [judges.own.solo_entered (judges.leaving _) (judges.unheard other _), List.nil_append,
    definition_children (judges.quiet _ _) view.schema, List.filterMap_flatMap]
  refine List.flatMap_congr fun selected listed => ?_
  have found := Option.mem_toList.mp listed
  let inside := view.during ⟨.entering, .definition definition⟩
  cases definition with
  | operation d =>
      cases found
      have root : ((view.schema.root? d.kind).map SchemaType.object).filter
          SchemaType.isComposite = (view.schema.root? d.kind).map SchemaType.object := by
        cases view.schema.root? d.kind <;> rfl
      have below := judges.solo_set d.selectionSet (depth + 1) inside _ built (knows_root view d)
      rw [root] at below
      exact below
  | fragment d =>
      cases found
      exact judges.solo_set d.selectionSet (depth + 1) inside _ built (knows_condition view d)
  | _ => cases found

theorem found (judges : Judges rule judged?) {schema : Schema} (built : schema.Built)
    {document : Document} (intact : (Node.document document).Intact)
    (member : rule ∈ specifiedRules) :
    validate schema document [rule] = .ok ((document.knownFields schema).filterMap fun known =>
      judged? schema known.1 known.2) := by
  rw [found_by_rule schema intact member, judges.own.solo_document, Document.knownFields,
    List.filterMap_filterMap, Document.parented, List.filterMap_flatMap]
  refine congrArg Except.ok (List.flatMap_congr fun definition _ => ?_)
  exact judges.solo_definition definition 1 ⟨schema, document, .empty⟩ built

end Judges
end Judging

section Rules
open Rules

theorem fields_on_correct_type_judges : Judges fieldsOnCorrectType undefinedField? where
  own := local_rules_local _ (by simp [localRules])
  leaving _ := rfl
  other _ other := if_neg other
  field view enclosing? field within _ := by
    let node : Node := .selection (.field field)
    let inside := view.during ⟨.entering, node⟩
    have told : fieldsOnCorrectType.reporter.react inside ⟨.entering, node⟩ =
        (fieldsOnCorrectType.reporter, (checkField (ofView inside) node).findings,
          .ok .proceed) := rfl
    have parent : inside.scope.parent? = enclosing?.filter SchemaType.isComposite := within.parent
    have defined : inside.scope.field? = (enclosing?.filter SchemaType.isComposite).bind fun
        parent => Scope.lookupField parent field.name :=
      congrArg (Option.bind · _) within.parent
    rw [told]
    simp only [checkField, ofView, node, parent, defined]
    cases known : enclosing?.filter SchemaType.isComposite with
    | none => rfl
    | some parent =>
        have some_iff := look_up_some (Option.filter_eq_some_iff.mp known).2 field.name
        rw [Option.bind_some, Option.bind_some, undefinedField?]
        cases found : Scope.lookupField parent field.name with
        | none =>
            rw [if_neg (by rw [← some_iff, found]; exact Bool.false_ne_true)]
            rfl
        | some definition =>
            rw [if_pos (by rw [← some_iff, found]; rfl)]
            rfl

theorem scalar_leafs_judges : Judges scalarLeafs misusedField? where
  own := local_rules_local _ (by simp [localRules])
  leaving _ := rfl
  other _ other := if_neg other
  field view enclosing? field within built := by
    let node : Node := .selection (.field field)
    let inside := view.during ⟨.entering, node⟩
    have told : scalarLeafs.reporter.react inside ⟨.entering, node⟩ =
        (scalarLeafs.reporter, (checkLeaf (ofView inside) node).findings, .ok .proceed) := rfl
    have declared : inside.scope.type? = _ := within.declared built field
    have schema : inside.schema = view.schema := rfl
    rw [told]
    simp only [checkLeaf, ofView, node, declared, schema]
    cases enclosing?.filter SchemaType.isComposite with
    | none => rfl
    | some parent =>
        rw [Option.bind_some, Option.bind_some, misusedField?]
        cases parent.declared? field.name with
        | none => rfl
        | some type =>
            dsimp only
            rw [Option.bind_some]
            cases view.schema.innermost? type with
            | none => rfl
            | some core =>
                rw [Option.bind_some]
                dsimp only
                unfold leafFinding?
                cases core.isLeaf <;> cases field.selectionSet? <;> rfl

end Rules

section Validation
variable {schema : Schema} {document : Document}

/-- The rules about fields report exactly what is wrong with the fields whose parents are
known, in the order of the document: one that a field is not defined for its parent, and the
other that something is selected of a leaf or nothing of a type with fields. -/
theorem field_findings (built : schema.Built) (sound : (Node.document document).Sound) :
    (document.parented schema).map Prod.snd = document.nodes.filterMap Node.selection? ∧
      validate schema document [Rules.fieldsOnCorrectType] =
        .ok ((document.knownFields schema).filterMap fun known =>
          undefinedField? schema known.1 known.2) ∧
      validate schema document [Rules.scalarLeafs] =
        .ok ((document.knownFields schema).filterMap fun known =>
          misusedField? schema known.1 known.2) := by
  have defined : Rules.fieldsOnCorrectType ∈ specifiedRules := by simp [specifiedRules]
  have leafs : Rules.scalarLeafs ∈ specifiedRules := by simp [specifiedRules]
  exact ⟨parented_selections schema document,
    fields_on_correct_type_judges.found built sound.intact defined,
    scalar_leafs_judges.found built sound.intact leafs⟩

/-- Fields of which too much or nothing is selected, and fields that are not defined. What is
selected of a field that is not defined, or under a condition that is not, is not looked at. -/
theorem field_findings_below_unknown_parents :
    let query : SchemaType := .object ⟨.written .start, none, "Query", [],
      [⟨.written .start, none, "name", [], .named "String" true⟩,
        ⟨.written .start, none, "self", [], .named "Query" true⟩]⟩
    let schema : Schema := ⟨builtinTypes ++ [query], builtinRules, [], "Query", none, none⟩
    let field (name : String) (set? : Option SelectionSet) : Field :=
      ⟨.start, none, name, [], [], set?⟩
    let set (selections : List Selection) : SelectionSet := ⟨.start, selections⟩
    let below : SelectionSet := set [.field (field "self" none)]
    let named : Field := field "name" (some below)
    let bare : Field := field "self" none
    let missing : Field := field "missing" (some below)
    let inner : Field := field "inner" none
    let document : Document :=
      ⟨[.operation ⟨.start, .query, none, [], [], set [.field named, .field bare, .field missing,
          .inline ⟨.start, none, [], set [.field inner]⟩]⟩,
        .fragment ⟨.start, "F", ⟨.start, "Absent"⟩, [], below⟩]⟩
    schema.Built ∧ (Node.document document).Sound ∧
      validate schema document [Rules.fieldsOnCorrectType] =
        .ok [Rules.undefinedFieldFinding schema query missing,
          Rules.undefinedFieldFinding schema query inner] ∧
      validate schema document [Rules.scalarLeafs] =
        .ok [.about (Rules.noSelectionAllowed "name" "String") (.selectionSet below),
          .about (Rules.selectionRequired "self" "Query") (.selection (.field bare))] := by
  intro query schema field set below named bare missing inner document
  let definition : Definition := .object ⟨.start, none, "Query", [], [],
    [⟨.start, none, "name", [], .named ⟨.start, "String"⟩, []⟩,
      ⟨.start, none, "self", [], .named ⟨.start, "Query"⟩, []⟩]⟩
  have built : schema.Built :=
    ⟨[⟨[definition]⟩], ⟨builtinTypes ++ [query], [], none, []⟩, rfl, rfl⟩
  have sound : (Node.document document).Sound := by
    simp [document, set, field, named, bare, missing, inner, below, Node.Sound, Node.listing,
      Node.tree_eq, Node.children, Node.ofDefinition, Node.ofSelection, Node.ofTypeRef,
      Tree.listing, Tree.listingAll, Node.flaw?]
  obtain ⟨_, defined, leafs⟩ := field_findings built sound
  have known : document.knownFields schema =
      [(query, named), (query, bare), (query, missing), (query, inner)] := rfl
  rw [known] at defined leafs
  exact ⟨built, sound, defined, leafs⟩

end Validation
end GraphQL
