import GraphQL.Proofs.Impartiality

/-! What one event does to an inspection: the node comes into scope, the rules report what
they make of it, and the node goes out of scope again. A limit that is exceeded ends the
tour when all rules have had their say. -/
namespace GraphQL.Inspection

open Attendee

section Events

/-- What the rules see at an event, and what is seen when it is over. -/
def View.during (view : View) : Event → View
  | ⟨.entering, node⟩ => { view with scope := view.scope.enter view.schema node }
  | ⟨.leaving, _⟩ => view

def View.beyond (view : View) : Event → View
  | ⟨.entering, _⟩ => view
  | ⟨.leaving, node⟩ => { view with scope := view.scope.leave node }

def during (inspection : Inspection) (event : Event) : Inspection :=
  { inspection with scope := (inspection.view.during event).scope }

def beyond (inspection : Inspection) (event : Event) : Inspection :=
  { inspection with scope := (inspection.view.beyond event).scope }

theorem during_view (inspection : Inspection) (event : Event) :
    (inspection.during event).view = inspection.view.during event := by
  rcases event with ⟨_ | _, _⟩ <;> rfl

theorem beyond_view (inspection : Inspection) (event : Event) :
    (inspection.beyond event).view = inspection.view.beyond event := by
  rcases event with ⟨_ | _, _⟩ <;> rfl

/-- The events of a tour with what the rules see at each. -/
def View.along (view : View) : List Event → List (View × Event)
  | [] => []
  | event :: rest => (view.during event, event) :: ((view.during event).beyond event).along rest

/-- An inspection that has exceeded its limit is over after the event. -/
def halted (inspection : Inspection) : Ending → Ending
  | .fault cause => .fault cause
  | ending => if inspection.exceeded then .stopped else ending

theorem halted_of_halt (inspection : Inspection) (answer : Except Fault Action) :
    Ending.ofAnswer (answer.map inspection.halt) =
      inspection.halted (Ending.ofAnswer answer) := by
  rcases answer with cause | action
  · rfl
  · simp only [Except.map, halt]
    cases exceeded : inspection.exceeded <;> cases action <;>
      simp only [halted, Ending.ofAnswer, exceeded, ↓reduceIte, Bool.false_eq_true]

theorem halted_within {inspection : Inspection} (within : inspection.exceeded = false)
    (ending : Ending) : inspection.halted ending = ending := by
  cases ending <;> simp only [halted, within, Bool.false_eq_true, ↓reduceIte]

theorem halted_beyond {inspection : Inspection} (exceeded : inspection.exceeded = true)
    (ending : Ending) : inspection.halted ending ≠ .finished := by
  cases ending with
  | fault cause => nofun
  | finished | stopped =>
      rw [halted, if_pos exceeded]
      all_goals nofun

end Events

section Guides
universe u
variable {Inner : Type u} {inner : Guide (Inner × Inspection)} {after : Inner × Inspection}
  {node : Node} {answer : Except Fault Action}

theorem tracked_enter (state : Inner × Inspection)
    (entered : inner.enter (state.1, state.2.enterNode node) node = (after, answer))
    (unskipped : answer ≠ .ok .skip) :
    (tracked inner).enter state node = (after, answer.map after.2.halt) := by
  simp only [tracked, entered]
  rcases answer with cause | _ | _ | _
  · rfl
  · rfl
  · exact absurd rfl unskipped
  · rfl

theorem tracked_leave (state : Inner × Inspection)
    (left : inner.leave state node = (after, answer)) :
    (tracked inner).leave state node =
      ((after.1, if answer.toBool then after.2.leaveNode node else after.2),
        answer.map after.2.halt) := by
  simp only [tracked, left]
  cases answer <;> rfl

theorem tracked_never_skips (never : inner.NeverSkips) : (tracked inner).NeverSkips := by
  intro state node
  have unskipped := never (state.1, state.2.enterNode node) node
  rcases entered : inner.enter (state.1, state.2.enterNode node) node with ⟨after, answer⟩
  rw [entered] at unskipped
  rw [tracked_enter state entered unskipped]
  rcases answer with cause | action
  · nofun
  · simp only [Except.map, halt]
    split
    · nofun
    · exact unskipped

end Guides

section Answers

/-- What an event does to a party and the inspection that it shares, when the members make
a turn of it and tell the inspection about it. -/
structure Answered (depth : Nat) (event : Event)
    (turn : Turn (List (Attendee View Finding)) Finding) (told : Inspection)
    (result : (Party Inspection × Inspection) × Ending) : Prop where
  ending : result.2 = told.halted turn.ending
  findings : result.1.2.findings = told.findings
  exceeded : result.1.2.exceeded = told.exceeded
  next : turn.ending = .finished →
    result.1 = (board.party (nextDepth depth event.phase) turn.who, told.beyond event)

/-- Nodes are looked at when they are entered, not when they are left. -/
theorem tracked_answer {event : Event}
    (sound : event.phase = .entering → event.node.flaw? = none) (depth : Nat)
    (attendees : List (Attendee View Finding)) (inspection : Inspection) :
    let inside := inspection.during event
    let turn := gather depth inside.view event attendees
    Answered depth event turn (inside.reportAll turn.reports)
      ((tracked Party.guide).answer (board.party depth attendees, inspection) event) := by
  rcases event with ⟨_ | _, node⟩
  · obtain ⟨answer, entered, ending⟩ :=
      board.party_enter depth attendees (inspection.enterNode node) node
    have unskipped : answer ≠ .ok .skip := by
      have never := Party.never_skips (board.party depth attendees, inspection.enterNode node) node
      rwa [entered] at never
    have tracks := tracked_enter (board.party depth attendees, inspection) entered unskipped
    have same : node.flaw? = none := sound rfl
    simp only [Guide.answer, same, Guide.end_after_eq, tracks]
    exact ⟨(halted_of_halt _ answer).trans (congrArg _ ending), rfl, rfl, fun _ => rfl⟩
  · obtain ⟨party, answer, left, ending, finished⟩ :=
      board.party_leave depth attendees inspection node
    simp only [Guide.answer, Guide.end_after_eq, tracked_leave _ left]
    refine ⟨(halted_of_halt _ answer).trans (congrArg _ ending), ?_, ?_, fun goes => ?_⟩
    · cases answer <;> rfl
    · cases answer <;> rfl
    · rw [finished goes]
      cases answer with
      | error cause => exact absurd (ending.trans goes) nofun
      | ok action => rfl

/-- Without a limit everything that is reported is found. -/
theorem tracked_answer_unlimited {event : Event}
    (sound : event.phase = .entering → event.node.flaw? = none) {depth : Nat}
    {attendees who : List (Attendee View Finding)} {inspection : Inspection}
    {reports : List Finding} {ending : Ending}
    (turned : gather depth (inspection.view.during event) event attendees =
      ⟨who, reports, ending⟩)
    (unlimited : inspection.limit? = none) (within : inspection.exceeded = false) :
    ∃ party after, (tracked Party.guide).answer (board.party depth attendees, inspection) event =
        ((party, after), ending) ∧
      after.findings = inspection.findings ++ reports ∧ after.exceeded = false ∧
      (ending = .finished →
        party = board.party (nextDepth depth event.phase) who ∧ after.limit? = none ∧
          after.view = (inspection.view.during event).beyond event) := by
  obtain ⟨ends, findings, exceeded, next⟩ := tracked_answer sound depth attendees inspection
  generalize (tracked Party.guide).answer (board.party depth attendees, inspection) event = result
    at ends findings exceeded next ⊢
  rcases result with ⟨⟨party, after⟩, _⟩
  simp only [during_view, turned] at ends findings exceeded next
  rw [report_all_unlimited (inspection.during event) unlimited]
    at ends findings exceeded next
  rw [halted_within (by exact within)] at ends
  refine ⟨party, after, congrArg _ ends, findings, exceeded.trans within, fun finished => ?_⟩
  obtain ⟨rfl, rfl⟩ := Prod.mk.inj (next finished)
  refine ⟨rfl, unlimited, ?_⟩
  rw [beyond_view]
  exact congrArg (View.beyond · event) (during_view inspection event)

end Answers

section Validation

/-- What a validation returns whose tour ends in this way. -/
def returned {α : Type} (value : α) : Ending → Except Fault α
  | .fault cause => .error cause
  | _ => .ok value

theorem returned_faultless {α : Type} (value : α) {ending : Ending}
    (faultless : ∀ cause, ending ≠ .fault cause) : returned value ending = .ok value := by
  cases ending with
  | fault cause => exact absurd rfl (faultless cause)
  | finished => rfl
  | stopped => rfl

theorem returned_ok {α : Type} {value found : α} {ending : Ending}
    (returns : returned value ending = .ok found) :
    found = value ∧ ∀ cause, ending ≠ .fault cause := by
  cases ending with
  | fault cause => cases returns
  | finished => exact ⟨(Except.ok.inj returns).symm, fun _ => nofun⟩
  | stopped => exact ⟨(Except.ok.inj returns).symm, fun _ => nofun⟩

theorem validate_within_eq (limit? : Option Nat) (schema : Schema) (document : Document)
    (rules : List Rule) :
    validateWithin limit? schema document rules =
      let result := (tracked Party.guide).tour
        (Party.ofVisitors rules, start schema document limit?) (.document document)
      returned result.1.2.outcome result.2 := by
  rw [validateWithin, inspect, show (start schema document limit?).document = document from rfl]
  rcases (tracked Party.guide).tour (Party.ofVisitors rules, start schema document limit?)
    (.document document) with ⟨⟨party, inspection⟩, _ | _ | cause⟩
  · rfl
  · rfl
  · rfl

theorem tour_of_rules {rules : List Rule} (impartial : ∀ rule ∈ rules, rule.Impartial)
    (inspection : Inspection) (root : Node) :
    (tracked Party.guide).tour (Party.ofVisitors rules, inspection) root =
      (tracked Party.guide).follow (board.party 0 (newcomers rules), inspection) root.events := by
  rw [Guide.tour_eq_follow _ (tracked_never_skips Party.never_skips), party_of_rules impartial]

end Validation
end GraphQL.Inspection
