import GraphQL.Proofs.DocumentNodes
import GraphQL.Proofs.Tracking

/-! What keeps rules from looking at all of a document. A party goes on as long as its
members do, whatever they skip, so a tour of it comes to every node. Then nothing but the
document decides how the tour ends: with the first of its nodes that is malformed. -/
namespace GraphQL

section Nodes

/-- A non-null type right inside a non-null type. -/
def Node.WrapsNonNull : Node → Prop
  | .type (.nonNull _ (.nonNull _ _)) => True
  | _ => False

def Node.fault? (node : Node) : Option Fault := node.flaw?.map (.malformed node.position)

def Node.IsPart : Node → Prop
  | .document _ => False
  | _ => True

namespace Node

theorem children_are_parts (node : Node) : ∀ child ∈ node.children, child.IsPart := by
  cases node with
  | definition d => cases d <;> simp [children, ofDefinition, IsPart, or_imp, forall_and]
  | selection s => cases s <;> simp [children, ofSelection, IsPart, or_imp, forall_and]
  | value v =>
      rcases v with ⟨place, form⟩
      cases form <;> simp [children, ofValue, IsPart]
  | type t => cases t <;> simp [children, ofTypeRef, IsPart]
  | _ => simp [children, IsPart, or_imp, forall_and]

theorem nodes_are_parts (node : Node) (part : node.IsPart) :
    ∀ inner ∈ node.nodes, inner.IsPart := by
  induction node using below_induction with
  | step node ih =>
      intro inner listed
      rw [nodes_eq] at listed
      rcases List.mem_cons.mp listed with rfl | below
      · exact part
      · obtain ⟨child, own, inside⟩ := List.mem_flatMap.mp below
        exact ih child own (children_are_parts node child own) inner inside

theorem wrapping_fault {node : Node} (wraps : node.WrapsNonNull) :
    node.fault? = some (.malformed node.position .nestedNonNull) := by
  cases node with
  | type t => rcases t with _ | _ | ⟨_, _ | _ | _⟩ <;> first | rfl | cases wraps
  | _ => cases wraps

theorem faultless_part {node : Node} (part : node.IsPart) (wraps : ¬ node.WrapsNonNull) :
    node.fault? = none := by
  cases node with
  | document d => cases part
  | type t => rcases t with _ | _ | ⟨_, _ | _ | _⟩ <;> first | rfl | exact absurd trivial wraps
  | _ => rfl

end Node

/-- How a tour ends that nothing but a malformed node ends. -/
def Ending.ofNodes (nodes : List Node) : Ending :=
  match nodes.findSome? Node.fault? with
  | some cause => .fault cause
  | none => .finished

end Nodes

section Guides
universe u
variable {State : Type u} {guide : Guide State} {Holds : State → Prop}

/-- From the states in question the guide goes on, to states of the same sort. -/
structure Guide.GoesOn (guide : Guide State) (Holds : State → Prop) : Prop where
  enter : ∀ state node, Holds state →
    Holds (guide.enter state node).1 ∧ (guide.enter state node).2 = .ok .proceed
  leave : ∀ state node, Holds state →
    Holds (guide.leave state node).1 ∧ (guide.leave state node).2 = .ok .proceed

namespace Guide

theorem GoesOn.answer (goes : guide.GoesOn Holds) {state : State} (holds : Holds state)
    {event : Event} (flawless : ∀ node, event.entered? = some node → node.flaw? = none) :
    ∃ next, Holds next ∧ guide.answer state event = (next, .finished) := by
  rcases event with ⟨_ | _, node⟩
  · obtain ⟨later, proceeds⟩ := goes.enter state node holds
    refine ⟨_, later, ?_⟩
    simp only [Guide.answer, flawless node rfl, end_after_eq, proceeds]
    rfl
  · obtain ⟨later, proceeds⟩ := goes.leave state node holds
    refine ⟨_, later, ?_⟩
    simp only [Guide.answer, end_after_eq, proceeds]
    rfl

theorem GoesOn.follow (goes : guide.GoesOn Holds) (events : List Event) {state : State}
    (holds : Holds state) :
    (guide.follow state events).2 = .ofNodes (events.filterMap Event.entered?) := by
  induction events generalizing state with
  | nil => rfl
  | cons event rest ih =>
      -- The check for a flaw comes before the guide is asked.
      cases flawed : event.entered?.bind Node.flaw? with
      | some flaw =>
          obtain ⟨node, entered, flaw_found⟩ := Option.bind_eq_some_iff.mp flawed
          rcases event with ⟨_ | _, _⟩
          · cases entered
            have faulty : guide.answer state ⟨.entering, node⟩ =
                (state, .fault (.malformed node.position flaw)) := by
              simp only [Guide.answer, flaw_found]
            rw [follow_ended rest faulty nofun]
            simp [Ending.ofNodes, Event.entered?, Node.fault?, flaw_found]
          · cases entered
      | none =>
          have flawless (node : Node) (entered : event.entered? = some node) :
              node.flaw? = none := by
            rwa [entered] at flawed
          obtain ⟨next, holds, answered⟩ := goes.answer holds flawless
          rw [follow_continued rest answered, ih holds]
          cases entered : event.entered? with
          | none => rw [List.filterMap_cons_none entered]
          | some node =>
              rw [List.filterMap_cons_some entered, Ending.ofNodes, Ending.ofNodes,
                List.findSome?_cons, Node.fault?, flawless node entered]
              rfl

end Guide
end Guides

/-! A party of rules that neither end a tour nor put a limit on it. -/
section Parties
open Inspection

/-- Nothing is left out of the findings, now or later. -/
structure Inspection.Open (inspection : Inspection) : Prop where
  unlimited : inspection.limit? = none
  within : inspection.exceeded = false

theorem Inspection.Open.scoped {inspection : Inspection} (is_open : inspection.Open)
    (scope : Scope) : Open { inspection with scope := scope } :=
  ⟨is_open.unlimited, is_open.within⟩

/-- A callback that never puts a limit on what is found. All callbacks that do nothing but
report are of this kind, and a rule is given no other means to change an inspection. -/
def Callback.KeepsOpen {State : Type} (callback : Callback State Inspection) : Prop :=
  ∀ state inspection node, inspection.Open → (callback state inspection node).context.Open

/-- Reporting is no way to put a limit on what is found. -/
theorem keeps_open_of_reports {State : Type} {callback : Callback State Inspection}
    (reports : ∀ state inspection node, ∃ findings,
      (callback state inspection node).context = inspection.reportAll findings) :
    callback.KeepsOpen := by
  intro state inspection node is_open
  obtain ⟨findings, told⟩ := reports state inspection node
  rw [told, report_all_unlimited inspection is_open.unlimited]
  exact ⟨is_open.unlimited, is_open.within⟩

namespace Visitor

/-- A rule that goes on and lets others go on. -/
structure Patient (rule : Rule) : Prop where
  calm : rule.Calm
  keeps : rule.Every Callback.KeepsOpen

variable {rule : Rule} {inspection : Inspection}

/-- A patient rule has answered, and it was not to end the tour. -/
structure Obliged (result : (Rule × Inspection) × Except Fault Action) : Prop where
  rule : result.1.1.Patient
  inspection : result.1.2.Open
  answer : result.2 = .ok .proceed ∨ result.2 = .ok .skip

theorem Patient.call (patient : rule.Patient) (is_open : inspection.Open)
    {callback? : Option (Callback rule.State Inspection)}
    (calm : ∀ callback, callback? = some callback → callback.Calm)
    (keeps : ∀ callback, callback? = some callback → callback.KeepsOpen) (node : Node) :
    Obliged (rule.call callback? inspection node) := by
  cases callback? with
  | none => exact ⟨patient, is_open, .inl rfl⟩
  | some callback =>
      have stays := keeps callback rfl rule.state inspection node is_open
      refine ⟨⟨patient.calm, patient.keeps⟩, stays, ?_⟩
      rcases calm callback rfl rule.state inspection node with proceeds | skips
      · exact .inl (congrArg (Visitor.answer rule.name node.kind) proceeds)
      · exact .inr (congrArg (Visitor.answer rule.name node.kind) skips)

theorem Patient.enter (patient : rule.Patient) (is_open : inspection.Open) (node : Node) :
    Obliged (rule.enter inspection node) :=
  patient.call is_open (patient.calm.1 _) (patient.keeps.1 _) node

theorem Patient.leave (patient : rule.Patient) (is_open : inspection.Open) (node : Node) :
    Obliged (rule.leave inspection node) :=
  patient.call is_open (patient.calm.2 _) (patient.keeps.2 _) node

end Visitor

namespace Party

def AllPatient (members : List (Member Inspection)) : Prop :=
  ∀ member ∈ members, member.visitor.Patient

variable {members : List (Member Inspection)} {inspection : Inspection}

structure Passage.Goes (passage : Passage Inspection) : Prop where
  members : AllPatient passage.members
  inspection : passage.context.Open
  answer : passage.answer = .ok .proceed

theorem Passage.Goes.after {passage : Passage Inspection} (goes : passage.Goes)
    {member : Member Inspection} (patient : member.visitor.Patient) :
    (passage.after member).Goes :=
  ⟨List.forall_mem_cons.mpr ⟨patient, goes.members⟩, goes.inspection, goes.answer⟩

/-- A member that skips is silent from then on, and the others still answer. -/
theorem enter_members_goes (depth : Nat) (node : Node) (silent : Nat)
    (patient : AllPatient members) (is_open : inspection.Open) :
    (enterMembers depth node silent inspection members).Goes := by
  induction members generalizing silent inspection with
  | nil => exact ⟨patient, is_open, rfl⟩
  | cons member rest ih =>
      obtain ⟨first, others⟩ := List.forall_mem_cons.mp patient
      rw [enterMembers]
      split
      · exact (ih silent others is_open).after first
      · obtain ⟨own, stays, answer⟩ := first.enter is_open node
        rcases entered : member.visitor.enter inspection node with ⟨⟨visitor, after⟩, answered⟩
        rw [entered] at own stays answer
        rcases answer with rfl | rfl
        · exact (ih silent others stays).after own
        · -- It skips alone: one more is silent, and the answer is left to the others.
          exact (ih (silent + 1) others stays).after own

theorem leave_members_goes (node : Node) (silent : Nat) (patient : AllPatient members)
    (is_open : inspection.Open) : (leaveMembers node silent inspection members).Goes := by
  induction members generalizing silent inspection with
  | nil => exact ⟨patient, is_open, rfl⟩
  | cons member rest ih =>
      obtain ⟨first, others⟩ := List.forall_mem_cons.mp patient
      rw [leaveMembers]
      split
      · exact (ih silent others is_open).after first
      · obtain ⟨own, stays, answer⟩ := first.leave is_open node
        rcases left : member.visitor.leave inspection node with ⟨⟨visitor, after⟩, answered⟩
        rw [left] at own stays answer
        rcases answer with rfl | rfl
        · exact (ih silent others stays).after own
        · exact (ih silent others stays).after own

theorem depart_patient (depth : Nat) {passage : Passage Inspection} (goes : passage.Goes) :
    AllPatient (depart depth passage).members := by
  rw [AllPatient, ← List.forall_mem_map, depart_visitors, List.forall_mem_map]
  exact goes.members

/-- All members are patient, and the inspection that they share is open. -/
def Ready (state : Party Inspection × Inspection) : Prop :=
  AllPatient state.1.members ∧ state.2.Open

theorem guide_goes_on : guide.GoesOn Ready where
  enter state node ready := by
    have goes := enter_members_goes (state.1.depth + 1) node state.1.silent ready.1 ready.2
    exact ⟨⟨goes.members, goes.inspection⟩, goes.answer⟩
  leave state node ready := by
    have goes := leave_members_goes node state.1.silent ready.1 ready.2
    simp only [guide, Party.leave, goes.answer]
    exact ⟨⟨depart_patient state.1.depth goes, goes.inspection⟩, trivial⟩

end Party

theorem halt_of_open {inspection : Inspection} (is_open : inspection.Open) (action : Action) :
    inspection.halt action = action := by
  rw [halt, is_open.within]
  rfl

theorem tracked_goes_on : (tracked Party.guide).GoesOn Party.Ready where
  enter state node ready := by
    obtain ⟨after, proceeds⟩ :=
      Party.guide_goes_on.enter (state.1, state.2.enterNode node) node ⟨ready.1, ready.2.scoped _⟩
    rcases entered : Party.guide.enter (state.1, state.2.enterNode node) node with ⟨next, answer⟩
    rw [entered] at after proceeds
    obtain rfl : answer = .ok .proceed := proceeds
    rw [tracked_enter state entered nofun]
    exact ⟨after, congrArg Except.ok (halt_of_open after.2 .proceed)⟩
  leave state node ready := by
    obtain ⟨after, proceeds⟩ := Party.guide_goes_on.leave state node ready
    rcases left : Party.guide.leave state node with ⟨next, answer⟩
    rw [left] at after proceeds
    obtain rfl : answer = .ok .proceed := proceeds
    rw [tracked_leave state left]
    exact ⟨⟨after.1, after.2.scoped _⟩, congrArg Except.ok (halt_of_open after.2 .proceed)⟩

end Parties

section Validation
open Inspection

variable {schema : Schema} {document : Document} {rules : List Rule}

theorem validate_of_nodes (patient : ∀ rule ∈ rules, rule.Patient) (schema : Schema)
    (document : Document) :
    ∃ findings, validate schema document rules = returned findings (.ofNodes document.nodes) := by
  have ready : Party.Ready (Party.ofVisitors rules, start schema document none) := by
    refine ⟨fun member joined => ?_, rfl, rfl⟩
    obtain ⟨rule, listed, rfl⟩ := List.mem_map.mp joined
    exact patient rule listed
  have ends := tracked_goes_on.follow (Node.document document).events ready
  rw [Node.entered_events] at ends
  rw [validate, validate_within_eq, Guide.tour_eq_follow _ (tracked_never_skips Party.never_skips)]
  exact ⟨_, congrArg (returned _) ends⟩

theorem faulty_iff {node : Node} (listed : node ∈ document.nodes) :
    node.fault?.isSome = true ↔
      node = .document document ∧ document.definitions = [] ∨ node.WrapsNonNull := by
  rcases List.mem_cons.mp listed with rfl | inside
  · cases empty : document.definitions <;>
      simp [Node.fault?, Node.flaw?, Node.WrapsNonNull, empty]
  · obtain ⟨d, _, inside⟩ := List.mem_flatMap.mp inside
    have part := Node.nodes_are_parts (.definition d) trivial node inside
    have no_root : node ≠ .document document := by
      rintro rfl
      exact part
    by_cases wraps : node.WrapsNonNull
    · simp [Node.wrapping_fault wraps, wraps]
    · simp [Node.faultless_part part wraps, wraps, no_root]

theorem validate_of_fault (patient : ∀ rule ∈ rules, rule.Patient) {cause : Fault}
    (first : document.nodes.findSome? Node.fault? = some cause) :
    validate schema document rules = .error cause := by
  obtain ⟨findings, returns⟩ := validate_of_nodes patient schema document
  rw [returns, Ending.ofNodes, first]
  rfl

theorem validate_fails_iff (patient : ∀ rule ∈ rules, rule.Patient) :
    (∃ cause, validate schema document rules = .error cause) ↔
      ∃ node ∈ document.nodes, node.fault?.isSome = true := by
  rw [← List.findSome?_isSome_iff]
  cases first : document.nodes.findSome? Node.fault? with
  | some cause => exact iff_of_true ⟨cause, validate_of_fault patient first⟩ rfl
  | none =>
      obtain ⟨findings, returns⟩ := validate_of_nodes patient schema document
      rw [returns, Ending.ofNodes, first]
      apply iff_of_false
      · rintro ⟨_, fails⟩
        cases fails
      · exact Bool.false_ne_true

/-- What `validate` returns for rules that do not end the tour. It fails if the document has
no definitions, and if a non-null type stands right inside a non-null type; the first such
type, in the order in which nodes are entered, is the one that is named. What the rules
skip makes no difference. -/
theorem faults_depend_on_the_document (calm : ∀ rule ∈ rules, rule.Calm)
    (keeps : ∀ rule ∈ rules, rule.Every Callback.KeepsOpen) (schema : Schema)
    (document : Document) :
    ((∃ cause, validate schema document rules = .error cause) ↔
      document.definitions = [] ∨ ∃ node ∈ document.nodes, node.WrapsNonNull) ∧
    (document.definitions = [] →
      validate schema document rules = .error (.malformed ⟨1, 1⟩ .noDefinitions)) ∧
    ∀ before node after, document.nodes = before ++ node :: after →
      (∀ other ∈ before, ¬ other.WrapsNonNull) → node.WrapsNonNull →
      validate schema document rules = .error (.malformed node.position .nestedNonNull) := by
  have patient (rule : Rule) (listed : rule ∈ rules) : rule.Patient :=
    ⟨calm rule listed, keeps rule listed⟩
  refine ⟨?_, ?_, ?_⟩
  · rw [validate_fails_iff patient]
    constructor
    · rintro ⟨node, listed, faulty⟩
      rcases (faulty_iff listed).mp faulty with ⟨_, empty⟩ | wraps
      · exact .inl empty
      · exact .inr ⟨node, listed, wraps⟩
    · rintro (empty | ⟨node, listed, wraps⟩)
      · have root : Node.document document ∈ document.nodes := List.mem_cons_self
        exact ⟨_, root, (faulty_iff root).mpr (.inl ⟨rfl, empty⟩)⟩
      · exact ⟨node, listed, (faulty_iff listed).mpr (.inr wraps)⟩
  · intro empty
    apply validate_of_fault patient
    simp [Document.nodes, Node.fault?, Node.flaw?, Node.position, empty, Position.start]
  · intro before node after split others wraps
    have earlier (other : Node) (member : other ∈ before) : other.fault? = none := by
      have listed : other ∈ document.nodes := split ▸ List.mem_append_left _ member
      rw [← Option.not_isSome_iff_eq_none, faulty_iff listed]
      rintro (⟨_, empty⟩ | wraps)
      · -- A document without definitions has no node but itself.
        rw [Document.nodes, empty, List.flatMap_nil] at split
        cases before with
        | nil => cases member
        | cons _ _ => simp at split
      · exact others other member wraps
    apply validate_of_fault patient
    rw [split, List.findSome?_append, List.findSome?_eq_none_iff.mpr earlier, Option.none_or,
      List.findSome?_cons, Node.wrapping_fault wraps]

/-- A rule that skips operations, and one that skips the definitions of fields. Both of them
miss a malformed type, and the first of the two is found. -/
theorem malformed_type_in_skipped_operation :
    let twice (place : Position) : TypeRef :=
      .nonNull place (.nonNull place (.named ⟨place, "Int"⟩))
    let operation : Operation :=
      ⟨.start, .query, none, [⟨⟨1, 7⟩, "a", twice ⟨1, 11⟩, none⟩], [], ⟨⟨1, 18⟩, []⟩⟩
    let object : FieldsDefinition :=
      ⟨⟨2, 1⟩, none, "Query", [], [], [⟨⟨2, 14⟩, none, "a", [], twice ⟨2, 17⟩, []⟩]⟩
    let document : Document := ⟨[.operation operation, .object object]⟩
    let rules : List Rule :=
      [Visitor.skipping (Visitor.named "operations") .operationDefinition,
        Visitor.skipping (Visitor.named "fields") .fieldDefinition]
    let schema : Schema := ⟨builtinTypes, [], [], "Query", none, none⟩
    (∀ rule ∈ rules, rule.Calm) ∧ (∀ rule ∈ rules, rule.Every Callback.KeepsOpen) ∧
      validate schema document rules = .error (.malformed ⟨1, 11⟩ .nestedNonNull) := by
  intro twice operation object document rules schema
  have each {holds : ∀ {State : Type}, Callback State Inspection → Prop}
      (skips : ∀ {State : Type}, @holds State fun state inspection _ =>
        ⟨state, inspection, .ok .skip⟩) : ∀ rule ∈ rules, rule.Every holds := by
    simp only [rules, List.forall_mem_cons, List.not_mem_nil, false_implies, implies_true, and_true]
    exact ⟨(named_every _).entering _ skips, (named_every _).entering _ skips⟩
  have calm : ∀ rule ∈ rules, rule.Calm := each fun _ _ _ => .inr rfl
  have keeps : ∀ rule ∈ rules, rule.Every Callback.KeepsOpen :=
    each (keeps_open_of_reports fun _ _ _ => ⟨[], rfl⟩)
  have faults := (faults_depend_on_the_document calm keeps schema document).2.2
  let before : List Node := [.document document, .definition (.operation operation),
    .variableDefinition ⟨⟨1, 7⟩, "a", twice ⟨1, 11⟩, none⟩]
  have others : ∀ other ∈ before, ¬ other.WrapsNonNull := by
    simp [before, Node.WrapsNonNull]
  exact ⟨calm, keeps, faults before _ _ rfl others trivial⟩

end Validation
end GraphQL
