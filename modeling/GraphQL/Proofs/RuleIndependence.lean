import GraphQL.Proofs.Tracking
import Mathlib.Data.List.Basic

/-! Rules do not get in each other's way. A journal of an inspection keeps the findings of
each event apart; what several rules find together is what the journals of each of them
alone say, event by event, and within an event in the order of the rules. -/
namespace GraphQL

namespace Inspection
open Attendee

section Journals

structure Entry where
  event : Event
  findings : List Finding

universe u
variable {Inner : Type u}

/-- Keeps beside an inspection what each event has added to its findings. -/
def journaled (inner : Guide (Inner × Inspection)) :
    Guide ((Inner × Inspection) × List Entry) where
  enter state node :=
    let result := inner.enter state.1 node
    let added := result.1.2.findings.drop state.1.2.findings.length
    ((result.1, state.2 ++ [⟨⟨.entering, node⟩, added⟩]), result.2)
  leave state node :=
    let result := inner.leave state.1 node
    let added := result.1.2.findings.drop state.1.2.findings.length
    ((result.1, state.2 ++ [⟨⟨.leaving, node⟩, added⟩]), result.2)

def journal (schema : Schema) (document : Document) (rules : List Rule) : List Entry :=
  ((journaled (tracked Party.guide)).tour
    ((Party.ofVisitors rules, start schema document none), []) (.document document)).1.2

def entriesOf (events : List Event) (found : List (List Finding)) : List Entry :=
  (events.zip found).map fun entry => ⟨entry.1, entry.2⟩

/-- What was found at the event with this number. -/
def foundAt (time : Nat) (entries : List Entry) : List Finding :=
  (entries[time]?.map Entry.findings).getD []

theorem journaled_carries (inner : Guide (Inner × Inspection)) :
    (journaled inner).Carries inner Prod.fst := ⟨fun _ _ => rfl, fun _ _ => rfl⟩

theorem journaled_never_skips {inner : Guide (Inner × Inspection)} (never : inner.NeverSkips) :
    (journaled inner).NeverSkips := fun state node => never state.1 node

theorem journaled_answer (inner : Guide (Inner × Inspection)) {event : Event}
    (sound : event.node.flaw? = none) (state : Inner × Inspection) (entries : List Entry) :
    (journaled inner).answer (state, entries) event =
      let result := inner.answer state event
      let added := result.1.2.findings.drop state.2.findings.length
      ((result.1, entries ++ [⟨event, added⟩]), result.2) := by
  rcases event with ⟨_ | _, node⟩
  · have same : node.flaw? = none := sound
    simp only [Guide.answer, same, Guide.end_after_eq, journaled]
  · simp only [Guide.answer, Guide.end_after_eq, journaled]

theorem journaled_follow (events : List Event)
    (sound : ∀ event ∈ events, event.node.flaw? = none) (depth : Nat)
    (attendees : List (Attendee View Finding)) (inspection : Inspection)
    (unlimited : inspection.limit? = none) (within : inspection.exceeded = false)
    (entries : List Entry) :
    let minutes := meet depth attendees (inspection.view.along events)
    let result := (journaled (tracked Party.guide)).follow
      ((board.party depth attendees, inspection), entries) events
    result.1.1.2.findings = inspection.findings ++ minutes.reports ∧
      result.1.1.2.exceeded = false ∧
      result.1.2 = entries ++ entriesOf events minutes.entries ∧
      result.2 = minutes.ending := by
  induction events generalizing depth attendees inspection entries with
  | nil => exact ⟨(List.append_nil _).symm, within, (List.append_nil _).symm, rfl⟩
  | cons event rest ih =>
      have here := sound event List.mem_cons_self
      have later := fun other member => sound other (List.mem_cons_of_mem _ member)
      rcases turned : gather depth (inspection.view.during event) event attendees with
        ⟨who, reports, ending⟩
      obtain ⟨party, after, told, findings, exceeded, next⟩ :=
        tracked_answer_unlimited (fun _ => here) turned unlimited within
      -- The event is noted with what it has added, whether or not the tour goes on.
      have answered : (journaled (tracked Party.guide)).answer
          ((board.party depth attendees, inspection), entries) event =
          (((party, after), entries ++ [⟨event, reports⟩]), ending) := by
        rw [journaled_answer _ here, told]
        dsimp only
        rw [findings, List.drop_left]
      rw [View.along]
      by_cases goes : ending = .finished
      · subst goes
        obtain ⟨rfl, unlimited', view⟩ := next rfl
        obtain ⟨all, within', journals, ends⟩ := ih later (nextDepth depth event.phase) who after
          unlimited' exceeded (entries ++ [⟨event, reports⟩])
        rw [Guide.follow_continued rest answered, meet_continued _ turned, ← view]
        refine ⟨?_, within', ?_, ends⟩
        · rw [all, findings, List.append_assoc]
          rfl
        · rw [journals, List.append_assoc]
          rfl
      · rw [Guide.follow_ended rest answered goes, meet_ended _ turned goes]
        refine ⟨?_, exceeded, ?_, rfl⟩
        · rw [findings]
          exact congrArg _ (List.append_nil _).symm
        · rw [entriesOf, List.zip_cons_cons, List.zip_nil_right]
          rfl

end Journals
end Inspection

/-! Attendees that never end the tour do not notice each other. -/
section Calm
open Attendee

variable {View Report : Type} {depth : Nat} {view : View} {event : Event}

namespace Attendee

def Calm (attendee : Attendee View Report) : Prop :=
  ∀ phase kind response, attendee.reporter.on phase kind = some response →
    ∀ state view node, (response state view node).answer = .ok .proceed ∨
      (response state view node).answer = .ok .skip

theorem Calm.speak {attendee : Attendee View Report} (calm : attendee.Calm) (depth : Nat)
    (view : View) (event : Event) :
    (attendee.speak depth view event).ending = .finished ∧
      (attendee.speak depth view event).who.Calm := by
  by_cases mute : attendee.skippedAt.isSome = true
  · rw [speak_mute mute]
    exact ⟨rfl, calm⟩
  · rw [speak_heard depth view event mute]
    rcases attendee with ⟨reporter, level⟩
    cases registered : reporter.on event.phase event.node.kind with
    | none =>
        simp only [Reporter.react, registered, Reporter.call]
        exact ⟨rfl, calm⟩
    | some response =>
        simp only [Reporter.react, registered, Reporter.call]
        refine ⟨?_, calm⟩
        rcases calm event.phase event.node.kind response registered reporter.state view
          event.node with proceeds | skips
        · rw [proceeds]
          rfl
        · rw [skips]
          rfl

theorem Calm.awaken {attendee : Attendee View Report} (calm : attendee.Calm) (depth : Nat)
    (phase : Phase) : (attendee.awaken depth phase).Calm := by
  cases phase with
  | entering => exact calm
  | leaving =>
      rw [Attendee.awaken, wake]
      split <;> exact calm

theorem Calm.turn {attendee : Attendee View Report} (calm : attendee.Calm) (depth : Nat)
    (view : View) (event : Event) :
    (attendee.turn depth view event).ending = .finished ∧
      (attendee.turn depth view event).who.Calm := by
  obtain ⟨finished, calm⟩ := calm.speak (nodeDepth depth event.phase) view event
  exact ⟨finished, calm.awaken _ event.phase⟩

theorem gather_calm (depth : Nat) (view : View) (event : Event)
    (attendees : List (Attendee View Report)) (calm : ∀ attendee ∈ attendees, attendee.Calm) :
    gather depth view event attendees =
      ⟨attendees.map fun attendee => (attendee.turn depth view event).who,
        attendees.flatMap fun attendee => (attendee.turn depth view event).reports,
        .finished⟩ := by
  simp only [gather, speak_all_finished attendees fun attendee member =>
    ((calm attendee member).speak _ view event).1, List.map_map]
  rfl

/-- A calm party hears at every event what each of its members would hear alone. -/
theorem meet_calm (timeline : List (View × Event)) (depth : Nat)
    (attendees : List (Attendee View Report)) (calm : ∀ attendee ∈ attendees, attendee.Calm) :
    let minutes := meet depth attendees timeline
    minutes.ending = .finished ∧ minutes.entries.length = timeline.length ∧
      ∀ time, minutes.entries.getD time [] = attendees.flatMap fun attendee =>
        (meet depth [attendee] timeline).entries.getD time [] := by
  induction timeline generalizing depth attendees with
  | nil =>
      refine ⟨rfl, rfl, fun time => ?_⟩
      simp [meet]
  | cons entry rest ih =>
      obtain ⟨view, event⟩ := entry
      -- What the members turn into at an event is calm again.
      have after : ∀ attendee ∈ attendees.map fun attendee => (attendee.turn depth view event).who,
          attendee.Calm := by
        intro next member
        obtain ⟨attendee, present, rfl⟩ := List.mem_map.mp member
        exact ((calm attendee present).turn depth view event).2
      obtain ⟨finished, length, each⟩ := ih (nextDepth depth event.phase) _ after
      rw [meet_continued rest (gather_calm depth view event attendees calm)]
      refine ⟨finished, congrArg (· + 1) length, fun time => ?_⟩
      have alone : ∀ attendee ∈ attendees, meet depth [attendee] ((view, event) :: rest) =
          let later := meet (nextDepth depth event.phase)
            [(attendee.turn depth view event).who] rest
          ⟨(attendee.turn depth view event).reports :: later.entries, later.ending⟩ := by
        intro attendee present
        apply meet_continued rest
        rw [gather_single]
        exact congrArg (Turn.mk _ _) ((calm attendee present).turn depth view event).1
      cases time with
      | zero =>
          apply List.flatMap_congr
          intro attendee present
          rw [alone attendee present]
          rfl
      | succ time =>
          apply (each time).trans
          rw [List.flatMap_map]
          apply List.flatMap_congr
          intro attendee present
          rw [alone attendee present]
          rfl

end Attendee
end Calm

section Independence
open Inspection Attendee

theorem Visitor.Calm.newcomer {rule : Rule} (calm : rule.Calm) : rule.reporter.newcomer.Calm := by
  have each {callback? : Option (Callback rule.State Inspection)}
      (told : ∀ callback, callback? = some callback → callback.Calm)
      (response : Response rule.State View Finding)
      (found : callback?.map Callback.heard = some response) (state : rule.State) (view : View)
      (node : Node) : (response state view node).answer = .ok .proceed ∨
        (response state view node).answer = .ok .skip := by
    obtain ⟨callback, registered, rfl⟩ := Option.map_eq_some_iff.mp found
    exact told callback registered state (ofView view) node
  intro phase kind
  cases phase with
  | entering => exact each (calm.1 kind)
  | leaving => exact each (calm.2 kind)

variable (schema : Schema) {document : Document} {rules : List Rule}

/-- Everything that an inspection of an intact document by impartial rules brings to light. -/
theorem inspection_of_impartial (intact : (Node.document document).Intact)
    (impartial : ∀ rule ∈ rules, rule.Impartial) :
    let events := (Node.document document).events
    let minutes := meet 0 (newcomers rules)
      (View.along ⟨schema, document, .empty⟩ events)
    journal schema document rules = entriesOf events minutes.entries ∧
      (minutes.ending = .finished → validate schema document rules = .ok minutes.reports) := by
  intro events minutes
  obtain ⟨findings, within, entries, ending⟩ := journaled_follow events intact 0
    (newcomers rules) (start schema document none) rfl rfl []
  have never := journaled_never_skips (tracked_never_skips Party.never_skips)
  rw [← party_of_rules impartial, ← Guide.tour_eq_follow _ never] at findings within entries ending
  refine ⟨entries, fun finished => ?_⟩
  have toured := (journaled_carries (tracked Party.guide)).tour_tree
    ((Party.ofVisitors rules, start schema document none), []) (Node.document document).tree
  have ended := ending.trans finished
  rw [Guide.tour] at ended findings within
  rw [ended] at toured
  have known : (tracked Party.guide).tour (Party.ofVisitors rules, start schema document none)
      (Node.document document) = _ := toured
  rw [validate, validate_within_eq, known]
  apply congrArg Except.ok
  dsimp only
  rw [outcome, if_neg (by rw [within]; exact Bool.false_ne_true), findings]
  rfl

/-- The findings of a list, told one index after the other. -/
theorem flatten_eq_range {α : Type} (lists : List (List α)) :
    lists.flatten = (List.range lists.length).flatMap fun time => lists.getD time [] := by
  have same : lists = (List.range lists.length).map fun time => lists.getD time [] := by
    apply List.ext_getElem (by simp)
    intro time bound _
    simp [bound]
  conv_lhs => rw [same]
  rw [List.flatMap_def]

section Entries
variable {events : List Event} {found : List (List Finding)}

theorem entries_of_events (length : found.length = events.length) :
    (entriesOf events found).map Entry.event = events := by
  rw [entriesOf, List.map_map]
  exact List.map_fst_zip (Nat.le_of_eq length.symm)

theorem entries_of_findings (length : found.length = events.length) :
    (entriesOf events found).map Entry.findings = found := by
  rw [entriesOf, List.map_map]
  exact List.map_snd_zip (Nat.le_of_eq length)

theorem found_at_entries (length : found.length = events.length) (time : Nat) :
    foundAt time (entriesOf events found) = found.getD time [] := by
  rw [foundAt, ← List.getElem?_map, entries_of_findings length, List.getD_eq_getElem?_getD]

end Entries

theorem along_length (events : List Event) (view : View) :
    (view.along events).length = events.length := by
  induction events generalizing view with
  | nil => rfl
  | cons event rest ih => exact congrArg (· + 1) (ih _)

/-- Calm rules see the document to its end. -/
theorem inspection_of_calm (intact : (Node.document document).Intact)
    (impartial : ∀ rule ∈ rules, rule.Impartial) (calm : ∀ rule ∈ rules, rule.Calm) :
    let events := (Node.document document).events
    let timeline := View.along ⟨schema, document, .empty⟩ events
    let entries := (meet 0 (newcomers rules) timeline).entries
    entries.length = events.length ∧
      journal schema document rules = entriesOf events entries ∧
      validate schema document rules = .ok entries.flatten ∧
      ∀ time, entries.getD time [] = rules.flatMap fun rule =>
        (meet 0 [rule.reporter.newcomer] timeline).entries.getD time [] := by
  have calm' : ∀ attendee ∈ newcomers rules, attendee.Calm := by
    intro attendee member
    obtain ⟨rule, present, rfl⟩ := List.mem_map.mp member
    exact (calm rule present).newcomer
  obtain ⟨kept, found⟩ := inspection_of_impartial schema intact impartial
  obtain ⟨finished, length, each⟩ := meet_calm
    (View.along ⟨schema, document, .empty⟩ (Node.document document).events) 0 _ calm'
  rw [along_length] at length
  refine ⟨length, kept, found finished, fun time => (each time).trans ?_⟩
  rw [newcomers, List.flatMap_map]

/-- Together the rules find what each of them finds alone, event by event and at an event
in the order of the rules. -/
theorem rules_are_independent (sound : (Node.document document).Sound)
    (impartial : ∀ rule ∈ rules, rule.Impartial) (calm : ∀ rule ∈ rules, rule.Calm) :
    let events := (Node.document document).events
    let alone := fun rule => journal schema document [rule]
    validate schema document rules =
        .ok ((List.range events.length).flatMap fun time =>
          rules.flatMap fun rule => foundAt time (alone rule)) ∧
      ∀ rule ∈ rules, (alone rule).map Entry.event = events ∧
        validate schema document [rule] = .ok ((alone rule).flatMap Entry.findings) := by
  intro events alone
  have solo := fun rule (present : rule ∈ rules) => inspection_of_calm schema sound.intact
    (List.forall_mem_singleton.mpr (impartial rule present))
    (List.forall_mem_singleton.mpr (calm rule present))
  obtain ⟨length, _, together, each⟩ := inspection_of_calm schema sound.intact impartial calm
  refine ⟨?_, fun rule present => ?_⟩
  · rw [together, flatten_eq_range, length]
    refine congrArg Except.ok (List.flatMap_congr fun time _ => (each time).trans ?_)
    apply List.flatMap_congr
    intro rule present
    obtain ⟨length, kept, _⟩ := solo rule present
    exact ((congrArg (foundAt time) kept).trans (found_at_entries length time)).symm
  · obtain ⟨length, kept, found, _⟩ := solo rule present
    refine ⟨(congrArg _ kept).trans (entries_of_events length), found.trans (congrArg _ ?_)⟩
    rw [List.flatMap_def]
    exact congrArg List.flatten ((congrArg _ kept).trans (entries_of_findings length)).symm

/-- The specified rules on a selection of one field that is not defined. -/
theorem specified_rules_are_independent :
    let schema : Schema :=
      ⟨builtinTypes ++ [.object ⟨.builtin, none, "Query", [], []⟩], builtinRules, [], "Query",
        none, none⟩
    let set : SelectionSet := ⟨.start, [.field ⟨.start, none, "a", [], [], none⟩]⟩
    let document : Document := ⟨[.operation ⟨.start, .query, none, [], [], set⟩]⟩
    (Node.document document).Sound ∧
      validate schema document specifiedRules =
        .ok ((List.range (Node.document document).events.length).flatMap fun time =>
          specifiedRules.flatMap fun rule => foundAt time (journal schema document [rule])) := by
  intro schema set document
  have sound : (Node.document document).Sound := by
    simp [document, set, Node.Sound, Node.listing, Node.tree_eq, Node.children,
      Node.ofDefinition, Node.ofSelection, Tree.listing, Tree.listingAll, Node.flaw?]
  have found :=
    rules_are_independent schema sound specified_rules_impartial specified_rules_calm
  exact ⟨sound, found.1⟩

end Independence
end GraphQL
