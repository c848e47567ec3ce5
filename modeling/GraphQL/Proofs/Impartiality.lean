import GraphQL.Proofs.Reporters
import GraphQL.Validation.Basic

/-! Rules that report findings and do nothing else to an inspection. Such a rule looks at
the schema, the document and the scope, never at the findings of others or at the limit,
so an inspection is a board for it. -/
namespace GraphQL

namespace Inspection

/-- What a rule may look at. -/
structure View where
  schema : Schema
  document : Document
  scope : Scope

def view (inspection : Inspection) : View :=
  ⟨inspection.schema, inspection.document, inspection.scope⟩

/-- An inspection without a limit in which nothing was found yet. -/
def ofView (view : View) : Inspection :=
  ⟨view.schema, view.document, none, view.scope, [], false⟩

section Reporting

theorem report_view (finding : Finding) (inspection : Inspection) :
    (inspection.report finding).view = inspection.view := by
  rw [report]
  split <;> rfl

theorem report_all_view (inspection : Inspection) (findings : List Finding) :
    (inspection.reportAll findings).view = inspection.view := by
  induction findings generalizing inspection with
  | nil => rfl
  | cons finding rest ih => exact (ih (inspection.report finding)).trans (report_view ..)

theorem report_all_append (inspection : Inspection) (findings more : List Finding) :
    inspection.reportAll (findings ++ more) = (inspection.reportAll findings).reportAll more :=
  List.foldl_append

def board : Board Inspection View Finding where
  view := view
  post inspection findings := inspection.reportAll findings
  view_post := report_all_view
  post_nil _ := rfl
  post_append := report_all_append

/-- Without a limit every finding is kept. -/
theorem report_all_unlimited (inspection : Inspection) (unlimited : inspection.limit? = none)
    (findings : List Finding) :
    inspection.reportAll findings =
      { inspection with findings := inspection.findings ++ findings } := by
  induction findings generalizing inspection with
  | nil => rw [List.append_nil]; rfl
  | cons finding rest ih =>
      have reported : inspection.report finding =
          { inspection with findings := inspection.findings ++ [finding] } := by
        rw [report, if_neg (by simp [isFull, unlimited])]
      rw [reportAll, List.foldl_cons, reported]
      refine (ih { inspection with findings := inspection.findings ++ [finding] }
        unlimited).trans ?_
      simp only [List.append_assoc, List.singleton_append]

theorem of_view_report_all (view : View) (findings : List Finding) :
    ((ofView view).reportAll findings).findings = findings := by
  rw [report_all_unlimited _ rfl]
  rfl

end Reporting
end Inspection

section Rules
open Inspection

variable {State : Type}

/-- A callback is impartial if all that it does is to report what it makes of a view, and
calm if it never ends the tour. -/
def Callback.Impartial (callback : Callback State Inspection) : Prop :=
  ∃ response : Response State View Finding, callback = board.callback response

def Callback.Calm (callback : Callback State Inspection) : Prop :=
  ∀ state inspection node, (callback state inspection node).answer = .ok .proceed ∨
    (callback state inspection node).answer = .ok .skip

/-- What a callback makes of a view: what it does to a blank inspection. -/
def Callback.heard (callback : Callback State Inspection) : Response State View Finding :=
  fun state view node =>
    let reply := callback state (ofView view) node
    ⟨reply.state, reply.context.findings, reply.answer⟩

theorem Callback.Impartial.heard_eq {callback : Callback State Inspection}
    (impartial : callback.Impartial) : board.callback callback.heard = callback := by
  obtain ⟨response, rfl⟩ := impartial
  have same : (board.callback response).heard = response := by
    funext state view node
    exact congrArg (Reaction.mk _ · _) (of_view_report_all view _)
  rw [same]

namespace Visitor

def Every (holds : ∀ {State : Type}, Callback State Inspection → Prop) (rule : Rule) : Prop :=
  (∀ kind callback, rule.onEnter kind = some callback → holds callback) ∧
    ∀ kind callback, rule.onLeave kind = some callback → holds callback

def Impartial : Rule → Prop := Every Callback.Impartial

def Calm : Rule → Prop := Every Callback.Calm

def reporter (rule : Rule) : Reporter View Finding where
  name := rule.name
  State := rule.State
  state := rule.state
  onEnter kind := (rule.onEnter kind).map Callback.heard
  onLeave kind := (rule.onLeave kind).map Callback.heard

theorem Impartial.reporter_eq {rule : Rule} (impartial : rule.Impartial) :
    board.visitor rule.reporter = rule := by
  have each {callback? : Option (Callback rule.State Inspection)}
      (told : ∀ callback, callback? = some callback → callback.Impartial) :
      (callback?.map Callback.heard).map board.callback = callback? := by
    cases callback? with
    | none => rfl
    | some callback => exact congrArg some (told callback rfl).heard_eq
  have entering := funext fun kind => each (impartial.1 kind)
  have leaving := funext fun kind => each (impartial.2 kind)
  rw [Board.visitor]
  simp only [reporter]
  rw [entering, leaving]

end Visitor

/-- The attendees that impartial rules are. -/
def Inspection.newcomers (rules : List Rule) : List (Attendee View Finding) :=
  rules.map fun rule => rule.reporter.newcomer

theorem Inspection.party_of_rules {rules : List Rule} (impartial : ∀ rule ∈ rules, rule.Impartial) :
    Party.ofVisitors rules = board.party 0 (newcomers rules) := by
  have same : (rules.map Visitor.reporter).map board.visitor = rules := by
    rw [List.map_map]
    exact (List.map_congr_left fun rule member => (impartial rule member).reporter_eq).trans
      (List.map_id rules)
  have party := board.party_of_visitors (rules.map Visitor.reporter)
  rw [same, List.map_map] at party
  exact party

end Rules

/-! The specified rules are impartial and calm. -/
section SpecifiedRules
open Inspection Rules

/-- A check is fair if it reports what it reports to a blank inspection of the same view. -/
def Inspection.Fair (check : Inspection → Node → Inspection) : Prop :=
  ∀ inspection node,
    check inspection node = inspection.reportAll (check (ofView inspection.view) node).findings

section Registered
variable {holds : ∀ {State : Type}, Callback State Inspection → Prop} {rule : Rule}

theorem named_every (name : String) : (Visitor.named name : Rule).Every holds :=
  ⟨fun _ _ => nofun, fun _ _ => nofun⟩

theorem Visitor.Every.entering (every : rule.Every holds) (kind : NodeKind)
    {callback : Callback rule.State Inspection} (own : holds callback) :
    (rule.entering kind callback).Every holds := by
  refine ⟨fun wanted found registered => ?_, every.2⟩
  simp only [Visitor.entering, register] at registered
  split at registered
  · cases registered
    exact own
  · exact every.1 wanted found registered

/-- What the specified rules do at a node never ends the tour. -/
def Callback.Regular {State : Type} (callback : Callback State Inspection) : Prop :=
  callback.Impartial ∧ callback.Calm

theorem skipping_regular (every : rule.Every Callback.Regular) (kind : NodeKind) :
    (Visitor.skipping rule kind).Every Callback.Regular :=
  every.entering kind ⟨⟨fun state _ _ => ⟨state, [], .ok .skip⟩, rfl⟩, fun _ _ _ => .inr rfl⟩

theorem observing_regular {State : Type} {check : Inspection → Node → Inspection}
    (fair : Fair check) : (observing check : Callback State Inspection).Regular := by
  refine ⟨⟨fun state view node => ⟨state, (check (ofView view) node).findings, .ok .proceed⟩, ?_⟩,
    fun _ _ _ => .inl rfl⟩
  funext state inspection node
  exact congrArg (Reply.mk state · _) (fair inspection node)

end Registered

section Fairness

theorem check_type_name_fair : Fair checkTypeName := by
  intro inspection node
  simp only [checkTypeName, ofView, view]
  repeat' split
  all_goals rfl

theorem check_condition_fair (inspection : Inspection) (condition : NamedType)
    (message : String) :
    checkCondition inspection condition message =
      inspection.reportAll
        (checkCondition (ofView inspection.view) condition message).findings := by
  simp only [checkCondition, ofView, view]
  repeat' split
  all_goals rfl

theorem check_inline_condition_fair : Fair checkInlineCondition := by
  intro inspection node
  simp only [checkInlineCondition]
  split
  · split
    · exact check_condition_fair inspection _ _
    · rfl
  · rfl

theorem check_fragment_condition_fair : Fair checkFragmentCondition := by
  intro inspection node
  simp only [checkFragmentCondition]
  split
  · exact check_condition_fair inspection _ _
  · rfl

theorem check_variable_fair : Fair checkVariable := by
  intro inspection node
  simp only [checkVariable, ofView, view]
  repeat' split
  all_goals rfl

theorem check_leaf_fair : Fair checkLeaf := by
  intro inspection node
  simp only [checkLeaf, ofView, view]
  repeat' split
  all_goals rfl

theorem check_field_fair : Fair checkField := by
  intro inspection node
  simp only [checkField, ofView, view]
  repeat' split
  all_goals rfl

theorem check_spread_fair : Fair checkSpread := by
  intro inspection node
  simp only [checkSpread, ofView, view]
  repeat' split
  all_goals rfl

end Fairness

theorem no_unused_fragments_regular : noUnusedFragments.Every Callback.Regular := by
  constructor
  · intro kind callback registered
    have same : callback = seeing := by
      cases kind <;> cases registered <;> rfl
    rw [same]
    exact ⟨⟨fun seen _ node => ⟨see seen node, [], .ok .skip⟩, rfl⟩, fun _ _ _ => .inr rfl⟩
  · intro kind callback registered
    have same : callback = reportUnused := by
      cases kind <;> cases registered
      rfl
    rw [same]
    exact ⟨⟨fun seen view _ => ⟨seen, unusedFindings view.document seen, .ok .proceed⟩, rfl⟩,
      fun _ _ _ => .inl rfl⟩

theorem specified_rules_regular : ∀ rule ∈ specifiedRules, rule.Every Callback.Regular := by
  simp only [specifiedRules, List.mem_cons, List.not_mem_nil, or_false, forall_eq_or_imp,
    forall_eq]
  refine ⟨?_, ?_, ?_, ?_, ?_, ?_, no_unused_fragments_regular⟩
  · refine Visitor.Every.entering ?_ _ (observing_regular check_type_name_fair)
    exact skipping_regular (skipping_regular (skipping_regular (skipping_regular
      (named_every _) _) _) _) _
  · exact ((named_every _).entering _ (observing_regular check_inline_condition_fair)).entering
      _ (observing_regular check_fragment_condition_fair)
  · exact (named_every _).entering _ (observing_regular check_variable_fair)
  · exact (named_every _).entering _ (observing_regular check_leaf_fair)
  · exact (named_every _).entering _ (observing_regular check_field_fair)
  · exact (named_every _).entering _ (observing_regular check_spread_fair)

theorem specified_rules_impartial : ∀ rule ∈ specifiedRules, rule.Impartial := by
  intro rule member
  obtain ⟨entering, leaving⟩ := specified_rules_regular rule member
  exact ⟨fun kind callback entry => (entering kind callback entry).1,
    fun kind callback entry => (leaving kind callback entry).1⟩

theorem specified_rules_calm : ∀ rule ∈ specifiedRules, rule.Calm := by
  intro rule member
  obtain ⟨entering, leaving⟩ := specified_rules_regular rule member
  exact ⟨fun kind callback entry => (entering kind callback entry).2,
    fun kind callback entry => (leaving kind callback entry).2⟩

end SpecifiedRules
end GraphQL
