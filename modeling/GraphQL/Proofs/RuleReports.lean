import GraphQL.Proofs.ExecutableNodes
import GraphQL.Proofs.SteadyRules

/-! What the specified rules that look at one node at a time report. On a tour of an
executable document such a rule reports nothing if and only if the condition that it
checks holds at every node that is entered. -/
namespace GraphQL

open Inspection Attendee

section Checking

/-- A rule that is silent when nodes are left, and when a node is entered finds nothing
wrong with it if and only if a condition holds there. -/
structure Checks (rule : Rule) (Holds : View → Node → Prop) : Prop where
  leaving : ∀ kind, rule.onLeave kind = none
  entering : ∀ view node, node.Executable →
    (rule.onEnter node.kind = none ∧ Holds view node) ∨
      ∃ check, rule.onEnter node.kind = some (observing check) ∧
        ((check (ofView view) node).findings = [] ↔ Holds view node)

variable {rule : Rule} {Holds : View → Node → Prop}

/-- The rule stays as it is and goes on. -/
theorem Checks.react (checks : Checks rule Holds) (view : View) (event : Event)
    (executable : event.node.Executable) :
    ∃ reports, rule.reporter.react view event = (rule.reporter, reports, .ok .proceed) ∧
      (reports = [] ↔ (event.phase = .entering → Holds view event.node)) := by
  rcases event with ⟨_ | _, node⟩
  · rcases checks.entering view node executable with ⟨absent, holds⟩ | ⟨check, found, iff⟩
    · have silent : rule.reporter.on .entering node.kind = none :=
        congrArg (Option.map Callback.heard) absent
      refine ⟨[], ?_, fun _ _ => holds, fun _ => rfl⟩
      rw [Reporter.react, silent]
      rfl
    · have told : rule.reporter.on .entering node.kind = some (Callback.heard (observing check)) :=
        congrArg (Option.map Callback.heard) found
      refine ⟨(check (ofView view) node).findings, ?_, ?_⟩
      · rw [Reporter.react, told]
        rfl
      · exact iff.trans ⟨fun holds _ => holds, fun holds => holds rfl⟩
  · have silent : rule.reporter.on .leaving node.kind = none :=
      congrArg (Option.map Callback.heard) (checks.leaving node.kind)
    have other : Phase.leaving ≠ .entering := by decide
    refine ⟨[], ?_, fun _ entered => absurd entered other, fun _ => rfl⟩
    rw [Reporter.react, silent]
    rfl

/-- The rule is never mute, so it hears of every node. -/
theorem Checks.reports_nil (checks : Checks rule Holds) (events : List Event)
    (executable : ∀ event ∈ events, event.node.Executable) (depth : Nat) (view : View) :
    rule.reporter.solo depth view events = [] ↔ View.Always Holds view events := by
  induction events generalizing depth view with
  | nil => exact ⟨fun _ _ member => absurd member List.not_mem_nil, fun _ => rfl⟩
  | cons event rest ih =>
      obtain ⟨reports, reacted, iff⟩ :=
        checks.react (view.during event) event (executable event List.mem_cons_self)
      -- The rule is what it was before the event.
      have later := ih (fun other member => executable other (List.mem_cons_of_mem _ member))
        (nextDepth depth event.phase) ((view.during event).beyond event)
      rw [Reporter.solo_proceeding reacted, List.append_eq_nil_iff, iff, View.Always, View.along,
        List.forall_mem_cons]
      exact and_congr_right fun _ => later

theorem named_checks (name : String) : Checks (Visitor.named name) fun _ _ => True :=
  ⟨fun _ => rfl, fun _ _ _ => .inl ⟨rfl, trivial⟩⟩

/-- A callback that is added for a kind of nodes leaves what is done at others alone. -/
theorem Checks.other_kind {Before : View → Node → Prop} (checks : Checks rule Before)
    {kind : NodeKind} (callback : Callback rule.State Inspection) {view : View} {node : Node}
    (executable : node.Executable) (other : node.kind ≠ kind)
    (same : Before view node ↔ Holds view node) :
    ((rule.entering kind callback).onEnter node.kind = none ∧ Holds view node) ∨
      ∃ check, (rule.entering kind callback).onEnter node.kind = some (observing check) ∧
        ((check (ofView view) node).findings = [] ↔ Holds view node) := by
  rcases checks.entering view node executable with ⟨absent, holds⟩ | ⟨check, found, iff⟩
  · exact .inl ⟨(if_neg other).trans absent, same.mp holds⟩
  · exact .inr ⟨check, (if_neg other).trans found, iff.trans same⟩

theorem Checks.entering_kind {Before : View → Node → Prop} (checks : Checks rule Before)
    {kind : NodeKind} {check : Inspection → Node → Inspection}
    (judged : ∀ view node, node.kind = kind →
      ((check (ofView view) node).findings = [] ↔ Holds view node))
    (others : ∀ view node, node.kind ≠ kind → (Before view node ↔ Holds view node)) :
    Checks (rule.entering kind (observing check)) Holds := by
  refine ⟨checks.leaving, fun view node executable => ?_⟩
  by_cases same : node.kind = kind
  · exact .inr ⟨check, if_pos same, judged view node same⟩
  · exact checks.other_kind _ executable same (others view node same)

/-- A check of the parts of which some nodes are made. -/
theorem Checks.entering_parts (checks : Checks rule fun _ _ => True) {kind : NodeKind}
    {check : Inspection → Node → Inspection} {Part : Type} (whole : Part → Node)
    {Good : View → Part → Prop} (own : ∀ part, (whole part).kind = kind)
    (judged : ∀ view part, (check (ofView view) (whole part)).findings = [] ↔ Good view part)
    (others : ∀ view node, (∀ part, node ≠ whole part) → check (ofView view) node = ofView view) :
    Checks (rule.entering kind (observing check))
      fun view node => ∀ part, node = whole part → Good view part := by
  refine checks.entering_kind (fun view node _ => ?_) fun view node other => ?_
  · constructor
    · rintro empty part rfl
      exact (judged view part).mp empty
    · intro good
      by_cases made : ∃ part, node = whole part
      · obtain ⟨part, rfl⟩ := made
        exact (judged view part).mpr (good part rfl)
      · rw [others view node fun part same => made ⟨part, same⟩]
        rfl
  · refine iff_of_true trivial fun part same => absurd ?_ other
    rw [same, own]

/-- The kinds of nodes that define types are no part of executable documents. -/
theorem Node.Executable.kind_ne {node : Node} (executable : node.Executable) {kind : NodeKind}
    (defining : kind ∈ [NodeKind.objectTypeDefinition, .interfaceTypeDefinition,
      .unionTypeDefinition, .inputObjectTypeDefinition]) : node.kind ≠ kind := by
  rintro rfl
  cases node with
  | definition d =>
      cases d with
      | operation _ | fragment _ => simp [Node.kind, Node.definitionKind] at defining
      | _ => cases executable
  | selection s => cases s <;> simp [Node.kind, Node.selectionKind] at defining
  | value v =>
      rcases v with ⟨_, form⟩
      cases form <;> simp [Node.kind, Node.valueKind] at defining
  | type t => cases t <;> simp [Node.kind, Node.typeKind] at defining
  | _ => simp [Node.kind] at defining

theorem Checks.skipping_kind (checks : Checks rule Holds) (kind : NodeKind)
    (defining : kind ∈ [NodeKind.objectTypeDefinition, .interfaceTypeDefinition,
      .unionTypeDefinition, .inputObjectTypeDefinition]) :
    Checks (Visitor.skipping rule kind) Holds :=
  ⟨checks.leaving, fun _ _ executable =>
    checks.other_kind _ executable (executable.kind_ne defining) Iff.rfl⟩

end Checking

/-! The conditions of the rules, each said of a node and of what is known there. -/
section Conditions

/-- The condition that a node puts on what is selected in it. -/
def Node.condition? : Node → Option NamedType
  | .selection s => s.condition?
  | .definition (.fragment d) => some d.typeCondition
  | _ => none

def TypeKnown (view : View) (node : Node) : Prop :=
  ∀ type, node = .type (.named type) → (view.schema.type? type.name).isSome

def ConditionComposite (view : View) (node : Node) : Prop :=
  ∀ condition, node.condition? = some condition →
    ∀ type, view.schema.type? condition.name = some type → type.isComposite

def VariableInput (view : View) (node : Node) : Prop :=
  ∀ definition, node = .variableDefinition definition →
    ∀ type, view.schema.innermost? (.ofRef definition.type) = some type → type.isInput

def LeafBare (view : View) (node : Node) : Prop :=
  ∀ field, node = .selection (.field field) → ∀ type, view.scope.type? = some type →
    ∀ core, view.schema.innermost? type = some core →
      (field.selectionSet?.isSome ↔ ¬ core.isLeaf)

def FieldDefined (view : View) (node : Node) : Prop :=
  ∀ field, node = .selection (.field field) → view.scope.parent?.isSome → view.scope.field?.isSome

def SpreadDefined (view : View) (node : Node) : Prop :=
  ∀ spread, node = .selection (.spread spread) → (view.document.fragment? spread.fragment).isSome

end Conditions

section Rules
open Rules

theorem known_type_names_checks : Checks knownTypeNames TypeKnown := by
  have skips := ((((named_checks "KnownTypeNames").skipping_kind .objectTypeDefinition
    (by simp)).skipping_kind .interfaceTypeDefinition (by simp)).skipping_kind
    .unionTypeDefinition (by simp)).skipping_kind .inputObjectTypeDefinition (by simp)
  refine skips.entering_parts (fun type => .type (.named type)) (fun _ => rfl) ?_ ?_
  · intro view type
    simp only [checkTypeName, ofView]
    cases view.schema.type? type.name with
    | some defined => exact iff_of_true rfl rfl
    | none => exact iff_of_false (List.cons_ne_nil _ _) (by simp)
  · intro view node other
    unfold checkTypeName
    split
    · next type => exact absurd rfl (other type)
    · rfl

theorem check_condition_iff (view : View) (condition : NamedType) (message : String) :
    (checkCondition (ofView view) condition message).findings = [] ↔
      ∀ type, view.schema.type? condition.name = some type → type.isComposite := by
  simp only [checkCondition, ofView]
  cases view.schema.type? condition.name with
  | none => exact iff_of_true rfl (by simp)
  | some type =>
      simp only [Option.some.injEq, forall_eq']
      cases composite : type.isComposite with
      | true => exact iff_of_true rfl rfl
      | false => exact iff_of_false (List.cons_ne_nil _ _) (by simp)

theorem check_inline_condition_iff (view : View) (node : Node)
    (kind : node.kind = .inlineFragment) :
    (checkInlineCondition (ofView view) node).findings = [] ↔ ConditionComposite view node := by
  cases node with
  | selection s =>
      cases s with
      | inline f =>
          simp only [checkInlineCondition, ConditionComposite, Node.condition?,
            Selection.condition?]
          cases f.typeCondition? with
          | none => exact iff_of_true rfl (by simp)
          | some condition =>
              simp only [Option.some.injEq, forall_eq']
              exact check_condition_iff view condition _
      | _ => cases kind
  | definition d => cases d <;> cases kind
  | value v =>
      rcases v with ⟨_, form⟩
      cases form <;> cases kind
  | type t => cases t <;> cases kind
  | _ => cases kind

theorem check_fragment_condition_iff (view : View) (node : Node)
    (kind : node.kind = .fragmentDefinition) :
    (checkFragmentCondition (ofView view) node).findings = [] ↔ ConditionComposite view node := by
  cases node with
  | definition d =>
      cases d with
      | fragment d =>
          simp only [checkFragmentCondition, ConditionComposite, Node.condition?,
            Option.some.injEq, forall_eq']
          exact check_condition_iff view d.typeCondition _
      | _ => cases kind
  | selection s => cases s <;> cases kind
  | value v =>
      rcases v with ⟨_, form⟩
      cases form <;> cases kind
  | type t => cases t <;> cases kind
  | _ => cases kind

theorem condition_kind {node : Node} {condition : NamedType}
    (found : node.condition? = some condition) :
    node.kind = .inlineFragment ∨ node.kind = .fragmentDefinition := by
  cases node with
  | selection s =>
      cases s with
      | inline f => exact .inl rfl
      | _ => cases found
  | definition d =>
      cases d with
      | fragment d => exact .inr rfl
      | _ => cases found
  | _ => cases found

theorem fragments_on_composite_types_checks :
    Checks fragmentsOnCompositeTypes ConditionComposite := by
  have inline : Checks ((Visitor.named "FragmentsOnCompositeTypes").entering .inlineFragment
      (observing checkInlineCondition))
      fun view node => node.kind = .inlineFragment → ConditionComposite view node := by
    refine (named_checks _).entering_kind (fun view node kind => ?_) fun view node other => ?_
    · rw [imp_iff_right kind]
      exact check_inline_condition_iff view node kind
    · exact iff_of_true trivial fun kind => absurd kind other
  apply inline.entering_kind check_fragment_condition_iff
  intro view node other
  constructor
  · intro holds condition found
    have kind := (condition_kind found).resolve_right other
    exact holds kind condition found
  · intro holds _
    exact holds

theorem variables_are_input_types_checks : Checks variablesAreInputTypes VariableInput := by
  refine (named_checks _).entering_parts .variableDefinition (fun _ => rfl) ?_ ?_
  · intro view definition
    simp only [checkVariable, ofView]
    cases view.schema.innermost? (.ofRef definition.type) with
    | none => exact iff_of_true rfl (by simp)
    | some type =>
        simp only [Option.some.injEq, forall_eq']
        cases input : type.isInput with
        | true => exact iff_of_true rfl rfl
        | false => exact iff_of_false (List.cons_ne_nil _ _) (by simp)
  · intro view node other
    unfold checkVariable
    split
    · next definition => exact absurd rfl (other definition)
    · rfl

theorem scalar_leafs_checks : Checks scalarLeafs LeafBare := by
  refine (named_checks _).entering_parts (fun field => .selection (.field field))
    (fun _ => rfl) ?_ ?_
  · intro view field
    simp only [checkLeaf, ofView]
    cases view.scope.type? with
    | none => exact iff_of_true rfl (by simp)
    | some type =>
        simp only [Option.some.injEq, forall_eq']
        cases view.schema.innermost? type with
        | none => exact iff_of_true rfl (by simp)
        | some core =>
            simp only [Option.some.injEq, forall_eq', leafFinding?]
            cases core.isLeaf with
            | true =>
                cases field.selectionSet? with
                | none => exact iff_of_true rfl (by simp)
                | some set => exact iff_of_false (List.cons_ne_nil _ _) (by simp)
            | false =>
                cases field.selectionSet? with
                | none => exact iff_of_false (List.cons_ne_nil _ _) (by simp)
                | some set => exact iff_of_true rfl (by simp)
  · intro view node other
    unfold checkLeaf
    split
    · next field => exact absurd rfl (other field)
    · rfl

theorem fields_on_correct_type_checks : Checks fieldsOnCorrectType FieldDefined := by
  refine (named_checks _).entering_parts (fun field => .selection (.field field))
    (fun _ => rfl) ?_ ?_
  · intro view field
    simp only [checkField, ofView]
    cases view.scope.parent? with
    | none => exact iff_of_true rfl (by simp)
    | some parent =>
        cases view.scope.field? with
        | none => exact iff_of_false (List.cons_ne_nil _ _) (by simp)
        | some defined => exact iff_of_true rfl fun _ => rfl
  · intro view node other
    unfold checkField
    split
    · next field => exact absurd rfl (other field)
    · rfl

theorem known_fragment_names_checks : Checks knownFragmentNames SpreadDefined := by
  refine (named_checks _).entering_parts (fun spread => .selection (.spread spread))
    (fun _ => rfl) ?_ ?_
  · intro view spread
    simp only [checkSpread, ofView]
    cases view.document.fragment? spread.fragment with
    | some defined => exact iff_of_true rfl rfl
    | none => exact iff_of_false (List.cons_ne_nil _ _) (by simp)
  · intro view node other
    unfold checkSpread
    split
    · next spread => exact absurd rfl (other spread)
    · rfl

end Rules
end GraphQL
