import GraphQL.Proofs.SteadyRules

/-! Rules that judge a node by what is known there: by the schema, by the types in scope
and, where a fragment is spread, by whether it is defined. All specified rules but the one
about unused fragments are like that. They find in a document what they find in its
definitions one by one, wherever these stand. -/
namespace GraphQL

open Inspection Attendee

section Views
namespace Inspection.View

/-- The same is known at some nodes. Of the two documents it only counts whether the
fragments that these nodes spread are defined in them. -/
structure Alike (a b : View) (nodes : List Node) : Prop where
  schema : a.schema = b.schema
  scope : a.scope.Agrees b.scope
  spread : ∀ spread : FragmentSpread, .selection (.spread spread) ∈ nodes →
    (a.document.fragment? spread.fragment).isSome = (b.document.fragment? spread.fragment).isSome

variable {a b : View} {nodes : List Node}

theorem Agrees.alike (agrees : a.Agrees b) (nodes : List Node) : a.Alike b nodes :=
  ⟨agrees.schema, agrees.scope, fun _ _ => by rw [agrees.document]⟩

theorem Alike.of_subset (alike : a.Alike b nodes) {fewer : List Node}
    (subset : ∀ node ∈ fewer, node ∈ nodes) : a.Alike b fewer :=
  ⟨alike.schema, alike.scope, fun spread member => alike.spread spread (subset _ member)⟩

theorem Alike.during (alike : a.Alike b nodes) (event : Event) :
    (a.during event).Alike (b.during event) nodes := by
  rcases event with ⟨_ | _, node⟩
  · refine ⟨alike.schema, ?_, alike.spread⟩
    simp only [View.during, alike.schema]
    exact alike.scope.enter b.schema node
  · exact alike

theorem Alike.beyond (alike : a.Alike b nodes) (event : Event) :
    (a.beyond event).Alike (b.beyond event) nodes := by
  rcases event with ⟨_ | _, node⟩
  · exact alike
  · exact ⟨alike.schema, alike.scope.leave node, alike.spread⟩

end Inspection.View
end Views

section Locality
variable {State : Type}

/-- None of the findings is about a definition as a whole. -/
def Inner (findings : List Finding) : Prop :=
  ∀ finding ∈ findings, ∀ definition, Node.definition definition ∉ finding.nodes

/-- A callback that remembers nothing, looks at nothing but what is known at the node, and
finds nothing about definitions as a whole. -/
structure Callback.Local (callback : Callback State Inspection) : Prop where
  state : ∀ state inspection node, (callback state inspection node).state = state
  view : ∀ state (a b : View) node, a.Alike b [node] →
    callback.heard state a node = callback.heard state b node
  inner : ∀ state (view : View) node, Inner (callback.heard state view node).reports

structure Inspection.Narrow (check : Inspection → Node → Inspection) : Prop where
  view : ∀ (a b : View) node, a.Alike b [node] →
    (check (ofView a) node).findings = (check (ofView b) node).findings
  inner : ∀ (view : View) node, Inner (check (ofView view) node).findings

theorem observing_local {check : Inspection → Node → Inspection} (narrow : Narrow check) :
    (observing check : Callback State Inspection).Local where
  state _ _ _ := rfl
  view state a b node alike := congrArg (Reaction.mk state · _) (narrow.view a b node alike)
  inner _ := narrow.inner

theorem skipping_local {rule : Rule} (every : rule.Every Callback.Local) (kind : NodeKind) :
    (Visitor.skipping rule kind).Every Callback.Local :=
  every.entering kind ⟨fun _ _ _ => rfl, fun _ _ _ _ _ => rfl, fun _ _ _ => nofun⟩

end Locality

/-! Each check reports one finding at most, about the node or a part of it. -/
section Checks
open Rules

theorem nothing_inner (view : View) : Inner (ofView view).findings :=
  fun _ member => absurd member List.not_mem_nil

theorem report_inner (view : View) (message : String) {node : Node}
    (part : ∀ definition, Node.definition definition ≠ node) :
    Inner ((ofView view).report (.about message node)).findings := by
  have reported : ((ofView view).report (.about message node)).findings =
      [.about message node] := of_view_report_all view [.about message node]
  rw [reported]
  intro finding member definition inside
  cases List.mem_singleton.mp member
  exact part definition (List.mem_singleton.mp inside)

theorem check_type_name_narrow : Narrow checkTypeName := by
  constructor
  · intro a b node alike
    simp only [checkTypeName, ofView, alike.schema]
    repeat' split
    all_goals rfl
  · intro view node
    unfold checkTypeName
    repeat' split
    all_goals first | exact nothing_inner view | exact report_inner view _ (by rintro _ ⟨⟩)

theorem check_condition_alike {a b : View} {node : Node} (alike : a.Alike b [node])
    (condition : NamedType) (message : String) :
    (checkCondition (ofView a) condition message).findings =
      (checkCondition (ofView b) condition message).findings := by
  simp only [checkCondition, ofView, alike.schema]
  repeat' split
  all_goals rfl

theorem check_condition_inner (view : View) (condition : NamedType) (message : String) :
    Inner (checkCondition (ofView view) condition message).findings := by
  unfold checkCondition
  repeat' split
  all_goals first | exact nothing_inner view | exact report_inner view _ (by rintro _ ⟨⟩)

theorem check_inline_condition_narrow : Narrow checkInlineCondition := by
  constructor
  · intro a b node alike
    unfold checkInlineCondition
    repeat' split
    all_goals first | rfl | exact check_condition_alike alike _ _
  · intro view node
    unfold checkInlineCondition
    repeat' split
    all_goals first | exact nothing_inner view | exact check_condition_inner view _ _

theorem check_fragment_condition_narrow : Narrow checkFragmentCondition := by
  constructor
  · intro a b node alike
    unfold checkFragmentCondition
    split
    · exact check_condition_alike alike _ _
    · rfl
  · intro view node
    unfold checkFragmentCondition
    split
    · exact check_condition_inner view _ _
    · exact nothing_inner view

theorem check_variable_narrow : Narrow checkVariable := by
  constructor
  · intro a b node alike
    simp only [checkVariable, ofView, alike.schema]
    repeat' split
    all_goals rfl
  · intro view node
    unfold checkVariable
    repeat' split
    all_goals first | exact nothing_inner view | exact report_inner view _ (by rintro _ ⟨⟩)

theorem check_leaf_narrow : Narrow checkLeaf := by
  constructor
  · intro a b node alike
    simp only [checkLeaf, ofView, alike.schema, alike.scope.type]
    repeat' split
    all_goals rfl
  · intro view node
    unfold checkLeaf leafFinding?
    repeat' split
    all_goals first | exact nothing_inner view | skip
    -- What is found is about the field or the selection in it.
    next found =>
      split at found
      · cases found
        exact report_inner view _ (by rintro _ ⟨⟩)
      · cases found
        exact report_inner view _ (by rintro _ ⟨⟩)
      · cases found

theorem check_field_narrow : Narrow checkField := by
  constructor
  · intro a b node alike
    simp only [checkField, ofView, alike.schema, alike.scope.parent, alike.scope.field]
    repeat' split
    all_goals rfl
  · intro view node
    unfold checkField
    repeat' split
    all_goals first | exact nothing_inner view | exact report_inner view _ (by rintro _ ⟨⟩)

theorem check_spread_narrow : Narrow checkSpread := by
  constructor
  · intro a b node alike
    unfold checkSpread
    split
    · next spread =>
      have same := alike.spread spread List.mem_cons_self
      simp only [ofView]
      cases known : a.document.fragment? spread.fragment with
      | none =>
          cases known' : b.document.fragment? spread.fragment with
          | none => rfl
          | some fragment => simp [known, known'] at same
      | some fragment =>
          cases known' : b.document.fragment? spread.fragment with
          | none => simp [known, known'] at same
          | some fragment => rfl
    · rfl
  · intro view node
    unfold checkSpread
    repeat' split
    all_goals first | exact nothing_inner view | exact report_inner view _ (by rintro _ ⟨⟩)

end Checks

section Rules
open Rules

/-- A rule that does nothing at the document itself and is local everywhere else. -/
structure Visitor.Local (rule : Rule) : Prop where
  calm : rule.Calm
  callbacks : rule.Every Callback.Local
  entering : rule.onEnter .document = none
  leaving : rule.onLeave .document = none

/-- The specified rules that look at one node at a time. -/
def localRules : List Rule :=
  [knownTypeNames, fragmentsOnCompositeTypes, variablesAreInputTypes, scalarLeafs,
    fieldsOnCorrectType, knownFragmentNames]

theorem specified_rules_eq : specifiedRules = localRules ++ [noUnusedFragments] := rfl

theorem local_rules_local : ∀ rule ∈ localRules, rule.Local := by
  intro rule member
  have calm : rule.Calm := specified_rules_calm rule (List.mem_append_left _ member)
  simp only [localRules, List.mem_cons, List.not_mem_nil, or_false] at member
  rcases member with rfl | rfl | rfl | rfl | rfl | rfl
  · refine ⟨calm, Visitor.Every.entering ?_ _ (observing_local check_type_name_narrow), rfl, rfl⟩
    exact skipping_local (skipping_local (skipping_local (skipping_local
      (named_every _) _) _) _) _
  · refine ⟨calm, Visitor.Every.entering ?_ _ (observing_local check_fragment_condition_narrow),
      rfl, rfl⟩
    exact (named_every _).entering _ (observing_local check_inline_condition_narrow)
  · exact ⟨calm, (named_every _).entering _ (observing_local check_variable_narrow), rfl, rfl⟩
  · exact ⟨calm, (named_every _).entering _ (observing_local check_leaf_narrow), rfl, rfl⟩
  · exact ⟨calm, (named_every _).entering _ (observing_local check_field_narrow), rfl, rfl⟩
  · exact ⟨calm, (named_every _).entering _ (observing_local check_spread_narrow), rfl, rfl⟩

/-! Where nothing is registered a rule does nothing. -/
section Unheard
variable {rule : Rule} {node : Node}

theorem entering_unheard (absent : rule.onEnter node.kind = none) (view : View) :
    rule.reporter.react view ⟨.entering, node⟩ = (rule.reporter, [], .ok .proceed) :=
  congrArg (fun callback? : Option (Callback rule.State Inspection) =>
    rule.reporter.call (callback?.map Callback.heard) view node) absent

theorem leaving_unheard (absent : rule.onLeave node.kind = none) (view : View) :
    rule.reporter.react view ⟨.leaving, node⟩ = (rule.reporter, [], .ok .proceed) :=
  congrArg (fun callback? : Option (Callback rule.State Inspection) =>
    rule.reporter.call (callback?.map Callback.heard) view node) absent

end Unheard

namespace Visitor.Local
variable {rule : Rule}

/-- What is registered for an event comes from a local and calm callback. -/
theorem told (own : rule.Local) (phase : Phase) (kind : NodeKind) :
    rule.reporter.on phase kind = none ∨ ∃ callback : Callback rule.State Inspection,
      rule.reporter.on phase kind = some callback.heard ∧ callback.Local ∧ callback.Calm := by
  have each {callback? : Option (Callback rule.State Inspection)}
      (holds : ∀ callback, callback? = some callback → callback.Local ∧ callback.Calm) :
      callback?.map Callback.heard = none ∨ ∃ callback : Callback rule.State Inspection,
        callback?.map Callback.heard = some callback.heard ∧ callback.Local ∧ callback.Calm := by
    cases callback? with
    | none => exact .inl rfl
    | some callback => exact .inr ⟨callback, rfl, holds callback rfl⟩
  cases phase with
  | entering => exact each fun callback found =>
      ⟨own.callbacks.1 kind callback found, own.calm.1 kind callback found⟩
  | leaving => exact each fun callback found =>
      ⟨own.callbacks.2 kind callback found, own.calm.2 kind callback found⟩

theorem steady (own : rule.Local) (events : List Event) : rule.reporter.Steady events := by
  intro event _ view
  rw [Reporter.react]
  rcases own.told event.phase event.node.kind with silent | ⟨callback, told, local_, calm⟩
  · rw [silent]
    exact ⟨[], .proceed, rfl, by decide⟩
  · have stays : (callback.heard rule.reporter.state view event.node).state =
        rule.reporter.state := local_.state _ _ _
    rw [told]
    simp only [Reporter.call, stays]
    rcases calm rule.reporter.state (ofView view) event.node with proceeds | skips
    · exact ⟨_, .proceed, congrArg (_, _, ·) (congrArg (Visitor.answer _ _) proceeds), by decide⟩
    · exact ⟨_, .skip, congrArg (_, _, ·) (congrArg (Visitor.answer _ _) skips), by decide⟩

theorem react_alike (own : rule.Local) {a b : View} {event : Event}
    (alike : a.Alike b [event.node]) :
    rule.reporter.react a event = rule.reporter.react b event := by
  rw [Reporter.react, Reporter.react]
  rcases own.told event.phase event.node.kind with silent | ⟨callback, told, local_, _⟩
  · rw [silent]
    rfl
  · rw [told]
    simp only [Reporter.call, local_.view rule.reporter.state a b event.node alike]

theorem react_inner (own : rule.Local) (view : View) (event : Event) :
    Inner (rule.reporter.react view event).2.1 := by
  rw [Reporter.react]
  rcases own.told event.phase event.node.kind with silent | ⟨callback, told, local_, _⟩
  · rw [silent]
    exact nofun
  · rw [told]
    exact local_.inner rule.reporter.state view event.node

/-- What the rule reports depends on nothing but what is known at the nodes. -/
theorem reports_alike (own : rule.Local) (events : List Event) {a b : View}
    (alike : a.Alike b (events.map Event.node)) (depth : Nat) (skippedAt : Option Nat) :
    (meet depth [⟨rule.reporter, skippedAt⟩] (a.along events)).reports =
      (meet depth [⟨rule.reporter, skippedAt⟩] (b.along events)).reports := by
  induction events generalizing a b depth skippedAt with
  | nil => rfl
  | cons event rest ih =>
      have during := alike.during event
      have same := own.react_alike (during.of_subset (List.cons_subset.mpr
        ⟨List.mem_cons_self, List.nil_subset _⟩))
      have turns : gather depth (a.during event) event [⟨rule.reporter, skippedAt⟩] =
          gather depth (b.during event) event [⟨rule.reporter, skippedAt⟩] := by
        rw [gather_single, gather_single, turn, turn, speak, speak, same]
      obtain ⟨next, reports, turned, _⟩ := Reporter.gather_steady
        (own.steady [event] event List.mem_cons_self (b.during event)) depth skippedAt
      rw [reports_continued rest (turns.trans turned), reports_continued rest turned]
      have later := (during.beyond event).of_subset fun node member => List.mem_cons_of_mem _ member
      exact congrArg (reports ++ ·) (ih later _ _)

theorem solo_alike (own : rule.Local) (events : List Event) {a b : View}
    (alike : a.Alike b (events.map Event.node)) (depth : Nat) :
    rule.reporter.solo depth a events = rule.reporter.solo depth b events :=
  own.reports_alike events alike depth none

theorem reports_inner (own : rule.Local) (events : List Event) (view : View) (depth : Nat)
    (skippedAt : Option Nat) :
    Inner (meet depth [⟨rule.reporter, skippedAt⟩] (view.along events)).reports := by
  induction events generalizing view depth skippedAt with
  | nil => exact nofun
  | cons event rest ih =>
      obtain ⟨next, reports, turned, told⟩ := Reporter.gather_steady
        (own.steady [event] event List.mem_cons_self (view.during event)) depth skippedAt
      rw [reports_continued rest turned]
      intro finding member
      rcases List.mem_append.mp member with here | later
      · exact own.react_inner _ event finding (told here)
      · exact ih _ _ _ finding later

/-- Nodes that stand side by side are judged one by one. -/
theorem solo_nodes (own : rule.Local) (nodes : List Node) (depth : Nat) (view : View) :
    rule.reporter.solo depth view (nodes.flatMap Node.events) =
      nodes.flatMap fun node => rule.reporter.solo depth view node.events := by
  induction nodes with
  | nil => rfl
  | cons node rest ih =>
      have behind := (View.passed_node node view).alike ((rest.flatMap Node.events).map Event.node)
      rw [List.flatMap_cons, List.flatMap_cons, Reporter.settles_node node (own.steady _),
        own.solo_alike _ behind, ih]

/-- A node of which the rule hears nothing when it is left: first comes what is found on
entering it, and then what is found in its children. -/
theorem solo_entered (own : rule.Local) {node : Node} (leaving : rule.onLeave node.kind = none)
    {view : View} {reports : List Finding}
    (entered : rule.reporter.react (view.during ⟨.entering, node⟩) ⟨.entering, node⟩ =
      (rule.reporter, reports, .ok .proceed)) (depth : Nat) :
    rule.reporter.solo depth view node.events =
      reports ++ node.children.flatMap fun child =>
        rule.reporter.solo (depth + 1) (view.during ⟨.entering, node⟩) child.events := by
  let inside := view.during ⟨.entering, node⟩
  let last : Event := ⟨.leaving, node⟩
  have left (view : View) : rule.reporter.solo (depth + 1) view [last] = [] := by
    rw [Reporter.solo_leaving (leaving_unheard leaving view) (by decide)]
    rfl
  have settled := Reporter.settles_nodes node.children fun child _ =>
    Reporter.settles_node child (own.steady child.events)
  rw [Node.events_eq, Reporter.solo_proceeding entered]
  refine congrArg (reports ++ ·) ?_
  calc rule.reporter.solo (depth + 1) inside (node.children.flatMap Node.events ++ [last])
      = rule.reporter.solo (depth + 1) inside (node.children.flatMap Node.events) ++
          rule.reporter.solo (depth + 1) (inside.passed (node.children.flatMap Node.events))
            [last] := settled _ _ _
    _ = node.children.flatMap fun child => rule.reporter.solo (depth + 1) inside child.events := by
        rw [left, List.append_nil, own.solo_nodes]

/-- What the rule finds in a document it finds in the definitions. -/
theorem solo_document (own : rule.Local) (schema : Schema) (document : Document) :
    rule.reporter.solo 0 ⟨schema, document, .empty⟩ (Node.document document).events =
      document.definitions.flatMap fun definition =>
        rule.reporter.solo 1 ⟨schema, document, .empty⟩ (Node.definition definition).events := by
  let root : Node := .document document
  have entering : rule.onEnter root.kind = none := own.entering
  have leaving : rule.onLeave root.kind = none := own.leaving
  exact (own.solo_entered leaving (entering_unheard entering _) 0).trans (List.flatMap_map ..)

end Visitor.Local
end Rules
end GraphQL
