import GraphQL.Proofs.Recordings
import Mathlib.Data.List.Basic

/-! A party does for its members what each of them would do alone. As long as no answer
ends the tour, a member receives exactly the calls of its own tour, and at each event the
members are called in the order in which they joined. The answer that ends the tour cuts
it for all members at that event, after the member that gave it. -/
namespace GraphQL

open Attendee

section OneEvent

/-- The attendee is a recorded visitor of this number, in whatever state. -/
def Attendee.Records (member : Nat) (attendee : Attendee Nat Call) : Prop :=
  ∃ visitor : Visitor Unit, attendee.reporter = visitor.recorder member

/-- The attendees are numbered as they stand. -/
def Attendee.Numbered : Nat → List (Attendee Nat Call) → Prop
  | _, [] => True
  | member, attendee :: rest => attendee.Records member ∧ Numbered (member + 1) rest

/-- Whether a call is made before another or is that call. -/
def Call.within (call last : Call) : Bool :=
  call.time < last.time || call.time == last.time && call.member ≤ last.member

/-- Whether no answer among the calls ends the tour before a call is made. -/
def Call.heardBy (calls : List Call) (call : Call) : Bool :=
  calls.all fun last => !last.ends || call.within last

def Call.Calm (calls : List Call) : Prop := ∀ call ∈ calls, call.ends = false

theorem Call.Calm.nil : Calm [] := List.forall_mem_nil _

variable {depth clock member : Nat} {event : Event} {attendee : Attendee Nat Call}
  {attendees : List (Attendee Nat Call)}

theorem Call.finished_iff (name : String) (kind : NodeKind) (call : Call) :
    Ending.ofAnswer (Visitor.answer name kind call.answer) = .finished ↔ call.ends = false := by
  rcases call with ⟨_, _, _, _, reason | _ | _ | _⟩ <;>
    simp [Visitor.answer, Ending.ofAnswer, Call.ends]

/-- At an event a recorded visitor is called at most once, and the tour goes on unless its
answer ends it. -/
structure Attendee.Spoken (member clock : Nat) (event : Event)
    (turn : Turn (Attendee Nat Call) Call) : Prop where
  records : turn.who.Records member
  calls : ∀ call ∈ turn.reports,
    call.time = clock ∧ call.member = member ∧ call.event = event
  once : turn.reports.length ≤ 1
  finished_iff : turn.ending = .finished ↔ Call.Calm turn.reports

theorem Visitor.recorder_on (visitor : Visitor Unit) (member : Nat) (phase : Phase)
    (kind : NodeKind) :
    (visitor.recorder member).on phase kind = none ∨
      ∃ callback,
        (visitor.recorder member).on phase kind = some (remember member phase callback) := by
  cases phase with
  | entering =>
      cases registered : visitor.onEnter kind with
      | none => exact .inl (by simp only [Reporter.on, recorder, registered, Option.map_none])
      | some callback =>
          exact .inr ⟨callback, by simp only [Reporter.on, recorder, registered, Option.map_some]⟩
  | leaving =>
      cases registered : visitor.onLeave kind with
      | none => exact .inl (by simp only [Reporter.on, recorder, registered, Option.map_none])
      | some callback =>
          exact .inr ⟨callback, by simp only [Reporter.on, recorder, registered, Option.map_some]⟩

theorem Attendee.Records.speak (records : attendee.Records member) (depth clock : Nat)
    (event : Event) : Spoken member clock event (attendee.speak depth clock event) := by
  obtain ⟨visitor, same⟩ := records
  by_cases mute : attendee.skippedAt.isSome = true
  · rw [speak_mute mute]
    exact ⟨⟨visitor, same⟩, List.forall_mem_nil _, Nat.zero_le _, fun _ => .nil, fun _ => rfl⟩
  · rw [speak_heard depth clock event mute]
    rcases attendee with ⟨reporter, level⟩
    subst same
    rcases visitor.recorder_on member event.phase event.node.kind with
      unregistered | ⟨callback, registered⟩
    · simp only [Reporter.react, unregistered, Reporter.call]
      exact ⟨⟨visitor, rfl⟩, List.forall_mem_nil _, Nat.zero_le _, fun _ => .nil, fun _ => rfl⟩
    · simp only [Reporter.react, registered, Reporter.call, Visitor.remember]
      generalize callback _ () event.node = reply
      refine ⟨⟨{ visitor with state := reply.state }, rfl⟩, ?_, Nat.le_refl _, ?_⟩
      · intro call made
        rw [List.mem_singleton.mp made]
        exact ⟨rfl, rfl, rfl⟩
      · simp only [Call.Calm, List.mem_singleton, forall_eq]
        exact Call.finished_iff visitor.name event.node.kind
          ⟨clock, member, event.phase, event.node, reply.answer⟩

theorem Attendee.Numbered.at_place (numbered : Numbered member attendees) {place : Nat}
    (found : attendees[place]? = some attendee) : attendee.Records (member + place) := by
  induction attendees generalizing member place with
  | nil => cases found
  | cons first rest ih =>
      cases place with
      | zero => cases found; exact numbered.1
      | succ place =>
          have later := ih numbered.2 found
          rwa [Nat.add_right_comm] at later

section Hearing

theorem Call.heard_by_calm {calls : List Call} (calm : Calm calls) (call : Call) :
    call.heardBy calls = true :=
  List.all_eq_true.mpr fun last member => by rw [calm last member]; rfl

theorem Call.heard_by_append {before : List Call} (calm : Calm before) (calls : List Call) :
    heardBy (before ++ calls) = heardBy calls := by
  funext call
  rw [heardBy, List.all_append]
  exact (congrArg (· && _) (heard_by_calm calm call)).trans (Bool.true_and _)

theorem Call.heard_by_later {calls : List Call} {call : Call}
    (later : ∀ last ∈ calls, call.within last = true) : call.heardBy calls = true :=
  List.all_eq_true.mpr fun last member => by rw [later last member, Bool.or_true]

theorem Call.within_later {call last : Call} (later : call.time < last.time) :
    call.within last = true := by
  rw [within, decide_eq_true later, Bool.true_or]

theorem Call.outside_earlier {call last : Call} (earlier : last.time < call.time) :
    call.within last = false := by
  simp only [within, Bool.or_eq_false_iff, Bool.and_eq_false_iff, decide_eq_false_iff_not,
    beq_eq_false_iff_ne]
  omega

theorem Call.unheard {calls : List Call} {call last : Call} (member : last ∈ calls)
    (ends : last.ends = true) (outside : call.within last = false) :
    call.heardBy calls = false :=
  List.all_eq_false.mpr ⟨last, member, by simp [ends, outside]⟩

theorem Call.heard_by_single {last : Call} (ends : last.ends = true) :
    heardBy [last] = fun call => call.within last := by
  funext call
  simp only [heardBy, List.all_cons, List.all_nil, ends, Bool.not_true, Bool.false_or,
    Bool.and_true]

/-- The calls of a tour with this ending: only the answer to the last can end it. -/
inductive Call.Course : List Call → Ending → Prop where
  | finished {calls : List Call} (calm : Calm calls) : Course calls .finished
  | ended {before : List Call} {last : Call} {ending : Ending} (calm : Calm before)
      (ends : last.ends = true) (unfinished : ending ≠ .finished) :
      Course (before ++ [last]) ending

theorem Call.Calm.append {before calls : List Call} (calm : Calm before)
    (later : Calm calls) : Calm (before ++ calls) := by
  intro call member
  exact (List.mem_append.mp member).elim (calm call) (later call)

theorem Call.Course.calm {calls : List Call} (course : Course calls .finished) : Calm calls := by
  cases course with
  | finished calm => exact calm
  | ended _ _ unfinished => exact absurd rfl unfinished

theorem Call.Course.finished_of_calm {calls : List Call} {ending : Ending}
    (course : Course calls ending) (calm : Calm calls) : ending = .finished := by
  cases course with
  | finished => rfl
  | ended _ ends _ =>
      have last := calm _ (List.mem_append_right _ List.mem_cons_self)
      exact absurd ends (Bool.eq_false_iff.mp last)

theorem Call.Course.last {calls : List Call} {ending : Ending} (course : Course calls ending)
    (ended : ending ≠ .finished) : ∃ last ∈ calls, last.ends = true := by
  cases course with
  | finished => exact absurd rfl ended
  | ended calm ends unfinished => exact ⟨_, List.mem_append_right _ List.mem_cons_self, ends⟩

/-- Whatever answer ends the tour, it is the one to the last call. -/
theorem Call.Course.unique {calls : List Call} {ending : Ending} {last : Call}
    (course : Course calls ending) (made : last ∈ calls) (ends : last.ends = true) :
    ∃ before, calls = before ++ [last] ∧ Calm before := by
  cases course with
  | finished calm => exact absurd ends (Bool.eq_false_iff.mp (calm last made))
  | ended calm _ _ =>
      rcases List.mem_append.mp made with early | only
      · exact absurd ends (Bool.eq_false_iff.mp (calm last early))
      · exact ⟨_, by rw [List.mem_singleton.mp only], calm⟩

theorem Call.Before.within {call last : Call} (before : call.Before last) :
    call.within last = true := by
  simp only [Call.within, Bool.or_eq_true, Bool.and_eq_true, decide_eq_true_eq, beq_iff_eq]
  exact before.imp id fun same => ⟨same.1, Nat.le_of_lt same.2⟩

theorem Call.within_self (call : Call) : call.within call = true := by
  simp [Call.within]

theorem Call.Course.after {before calls : List Call} {ending : Ending} (calm : Calm before)
    (course : Course calls ending) : Course (before ++ calls) ending := by
  cases course with
  | finished later => exact .finished (calm.append later)
  | ended later ends unfinished =>
      rw [← List.append_assoc]
      exact .ended (calm.append later) ends unfinished

end Hearing

section Saying
variable {turn : Turn (Attendee Nat Call) Call}

/-- A visitor that ends the tour was called once. -/
theorem Attendee.Spoken.last (spoken : Spoken member clock event turn)
    (ended : turn.ending ≠ .finished) : ∃ last, turn.reports = [last] ∧ last.ends = true ∧
      last.time = clock ∧ last.member = member := by
  obtain ⟨_, calls, once, finished⟩ := spoken
  rcases turn with ⟨who, _ | ⟨last, _ | ⟨other, more⟩⟩, ending⟩
  · exact absurd (finished.mpr .nil) ended
  · obtain ⟨time, same, _⟩ := calls last List.mem_cons_self
    refine ⟨last, rfl, ?_, time, same⟩
    by_contra calm
    refine ended (finished.mpr fun call made => ?_)
    exact List.mem_singleton.mp made ▸ eq_false_of_ne_true calm
  · simp at once

theorem Attendee.Spoken.course (spoken : Spoken member clock event turn) :
    Call.Course turn.reports turn.ending := by
  by_cases finished : turn.ending = .finished
  · rw [finished]
    exact .finished (spoken.finished_iff.mp finished)
  · obtain ⟨last, only, ends, _⟩ := spoken.last finished
    rw [only]
    exact .ended .nil ends finished

theorem Attendee.Spoken.ordered (spoken : Spoken member clock event turn) :
    turn.reports.Pairwise Call.Before := by
  have once := spoken.once
  rcases turn with ⟨who, _ | ⟨call, _ | ⟨other, more⟩⟩, ending⟩
  · exact .nil
  · exact List.pairwise_singleton ..
  · simp at once

theorem Attendee.Spoken.mine (spoken : Spoken member clock event turn) :
    turn.reports.filter (·.member == member) = turn.reports :=
  List.filter_eq_self.mpr fun call made => beq_iff_eq.mpr (spoken.calls call made).2.1

theorem Attendee.Spoken.others (spoken : Spoken member clock event turn) {other : Nat}
    (apart : member ≠ other) : turn.reports.filter (·.member == other) = [] :=
  List.filter_eq_nil_iff.mpr fun call made same =>
    apart ((spoken.calls call made).2.1.symm.trans (beq_iff_eq.mp same))

/-- Nothing that a later member says at the same event keeps a member from being heard. -/
theorem Attendee.Spoken.heard (spoken : Spoken member clock event turn) {calls : List Call}
    (later : ∀ call ∈ calls, call.time = clock ∧ member ≤ call.member) :
    turn.reports.filter (Call.heardBy calls) = turn.reports := by
  apply List.filter_eq_self.mpr
  intro call made
  apply Call.heard_by_later
  intro last after
  obtain ⟨time, same, _⟩ := spoken.calls call made
  obtain ⟨time', high⟩ := later last after
  simp only [Call.within, time, time', same, beq_self_eq_true, Bool.true_and, Bool.or_eq_true,
    decide_eq_true_eq]
  exact .inr high

/-- A member is not heard at an event that a member before it has ended. -/
theorem Attendee.Spoken.unheard (spoken : Spoken member clock event turn) {last : Call}
    (ends : last.ends = true) (time : last.time = clock) (before : last.member < member) :
    turn.reports.filter (Call.heardBy [last]) = [] := by
  apply List.filter_eq_nil_iff.mpr
  intro call made
  rw [Bool.not_eq_true]
  apply Call.unheard List.mem_cons_self ends
  obtain ⟨time', same, _⟩ := spoken.calls call made
  simp only [Call.within, time, time', same, Nat.lt_irrefl, beq_self_eq_true, decide_false,
    Bool.false_or, Bool.true_and, decide_eq_false_iff_not]
  omega

end Saying

section AllSpeak

theorem speak_all_placed (numbered : Numbered member attendees) (depth clock : Nat)
    (event : Event) :
    ∀ call ∈ (speakAll depth clock event attendees).reports,
      call.time = clock ∧ member ≤ call.member ∧ call.member < member + attendees.length ∧
        call.event = event := by
  induction attendees generalizing member with
  | nil => exact List.forall_mem_nil _
  | cons first rest ih =>
      have spoken := numbered.1.speak depth clock event
      have own : ∀ call ∈ (first.speak depth clock event).reports,
          call.time = clock ∧ member ≤ call.member ∧
            call.member < member + (first :: rest).length ∧ call.event = event := by
        intro call made
        obtain ⟨time, same, about⟩ := spoken.calls call made
        exact ⟨time, same ▸ Nat.le_refl _, same ▸ Nat.lt_add_of_pos_right (Nat.succ_pos _), about⟩
      by_cases continued : (first.speak depth clock event).ending = .finished
      · rw [speak_all_continued rest continued]
        intro call made
        rcases List.mem_append.mp made with first | later
        · exact own call first
        · obtain ⟨time, high, bound, about⟩ := ih numbered.2 call later
          rw [Nat.add_assoc, Nat.add_comm 1] at bound
          exact ⟨time, Nat.le_of_succ_le high, bound, about⟩
      · rw [speak_all_ended rest continued]
        exact own

theorem speak_all_length (depth clock : Nat) (event : Event)
    (attendees : List (Attendee Nat Call)) :
    (speakAll depth clock event attendees).who.length = attendees.length := by
  induction attendees with
  | nil => rfl
  | cons first rest ih =>
      by_cases continued : (first.speak depth clock event).ending = .finished
      · rw [speak_all_continued rest continued]
        exact congrArg (· + 1) ih
      · rw [speak_all_ended rest continued]
        rfl

theorem speak_all_numbered (numbered : Numbered member attendees) :
    Numbered member (speakAll depth clock event attendees).who := by
  induction attendees generalizing member with
  | nil => trivial
  | cons first rest ih =>
      have spoken := numbered.1.speak depth clock event
      by_cases continued : (first.speak depth clock event).ending = .finished
      · rw [speak_all_continued rest continued]
        exact ⟨spoken.records, ih numbered.2⟩
      · rw [speak_all_ended rest continued]
        exact ⟨spoken.records, numbered.2⟩

theorem speak_all_ordered (numbered : Numbered member attendees) :
    (speakAll depth clock event attendees).reports.Pairwise Call.Before := by
  induction attendees generalizing member with
  | nil => exact .nil
  | cons first rest ih =>
      have spoken := numbered.1.speak depth clock event
      by_cases continued : (first.speak depth clock event).ending = .finished
      · rw [speak_all_continued rest continued]
        refine List.pairwise_append.mpr ⟨spoken.ordered, ih numbered.2, ?_⟩
        intro call made later after
        obtain ⟨time, same, _⟩ := spoken.calls call made
        obtain ⟨time', high, _⟩ := speak_all_placed numbered.2 depth clock event later after
        exact .inr ⟨time.trans time'.symm, by omega⟩
      · rw [speak_all_ended rest continued]
        exact spoken.ordered

theorem speak_all_course (numbered : Numbered member attendees) :
    let turn := speakAll depth clock event attendees
    Call.Course turn.reports turn.ending := by
  induction attendees generalizing member with
  | nil => exact .finished .nil
  | cons first rest ih =>
      have spoken := numbered.1.speak depth clock event
      by_cases continued : (first.speak depth clock event).ending = .finished
      · rw [speak_all_continued rest continued]
        exact (ih numbered.2).after (spoken.finished_iff.mp continued)
      · rw [speak_all_ended rest continued]
        exact spoken.course

/-- Among the calls of an event, those of a member are the ones it receives alone, unless
a member before it ends the tour. -/
theorem speak_all_part (numbered : Numbered member attendees) {place : Nat}
    (found : attendees[place]? = some attendee) :
    let calls := (speakAll depth clock event attendees).reports
    calls.filter (·.member == member + place) =
      (attendee.speak depth clock event).reports.filter (Call.heardBy calls) := by
  induction attendees generalizing member place with
  | nil => cases found
  | cons first rest ih =>
      have spoken := numbered.1.speak depth clock event
      by_cases continued : (first.speak depth clock event).ending = .finished
      · rw [speak_all_continued rest continued]
        dsimp only
        rw [Call.heard_by_append (spoken.finished_iff.mp continued), List.filter_append]
        have others := speak_all_placed numbered.2 depth clock event
        generalize (speakAll depth clock event rest).reports = later at others ih
        cases place with
        | zero =>
            cases found
            have none : later.filter (·.member == member + 0) = [] :=
              List.filter_eq_nil_iff.mpr fun call made same => by
                have high := (others call made).2.1
                have low := beq_iff_eq.mp same
                omega
            rw [none, List.append_nil]
            refine spoken.mine.trans (spoken.heard fun call made => ?_).symm
            obtain ⟨time, high, _⟩ := others call made
            exact ⟨time, Nat.le_of_succ_le high⟩
        | succ place =>
            rw [spoken.others (by omega), List.nil_append]
            have part := ih numbered.2 found
            rwa [Nat.add_right_comm] at part
      · obtain ⟨last, only, ends, time, same⟩ := spoken.last continued
        rw [speak_all_ended rest continued]
        dsimp only
        cases place with
        | zero =>
            cases found
            refine spoken.mine.trans (spoken.heard fun call made => ?_).symm
            rw [only] at made
            rw [List.mem_singleton.mp made]
            exact ⟨time, Nat.le_of_eq same.symm⟩
        | succ place =>
            rw [spoken.others (by omega), only]
            have later := (numbered.2.at_place found).speak depth clock event
            exact (later.unheard ends time (by omega)).symm

end AllSpeak

end OneEvent

/-! The same of a whole tour, by induction on its events. -/
section WholeTour

variable {depth clock member : Nat} {attendee : Attendee Nat Call}
  {attendees : List (Attendee Nat Call)}

theorem Attendee.Numbered.awaken (numbered : Numbered member attendees) (depth : Nat)
    (phase : Phase) : Numbered member (attendees.map (awaken depth phase)) := by
  induction attendees generalizing member with
  | nil => trivial
  | cons first rest ih =>
      obtain ⟨visitor, same⟩ := numbered.1
      refine ⟨⟨visitor, ?_⟩, ih numbered.2⟩
      rw [← same]
      cases phase with
      | entering => rfl
      | leaving =>
          rw [Attendee.awaken, wake]
          split <;> rfl

theorem Attendee.Numbered.gather (numbered : Numbered member attendees) (depth clock : Nat)
    (event : Event) : Numbered member (gather depth clock event attendees).who :=
  (speak_all_numbered numbered).awaken _ _

theorem Attendee.gather_length (depth clock : Nat) (event : Event)
    (attendees : List (Attendee Nat Call)) :
    (gather depth clock event attendees).who.length = attendees.length :=
  List.length_map _ |>.trans (speak_all_length ..)

theorem Attendee.gather_part (numbered : Numbered member attendees) (depth clock : Nat)
    (event : Event) {place : Nat} (found : attendees[place]? = some attendee) :
    let calls := (gather depth clock event attendees).reports
    calls.filter (·.member == member + place) =
      (attendee.turn depth clock event).reports.filter (Call.heardBy calls) :=
  speak_all_part numbered found

theorem Attendee.gather_who {event : Event}
    (finished : (gather depth clock event attendees).ending = .finished) {place : Nat}
    (found : attendees[place]? = some attendee) :
    (gather depth clock event attendees).who[place]? =
        some (attendee.turn depth clock event).who ∧
      (attendee.turn depth clock event).ending = .finished := by
  have each := each_finished attendees finished
  refine ⟨?_, each attendee (List.mem_of_getElem? found)⟩
  simp only [Attendee.gather, speak_all_finished attendees each, List.map_map, List.getElem?_map,
    found, Option.map_some]
  rfl

/-- The first event of a tour, and whether the tour goes on after it. -/
theorem Attendee.meet_stamped (depth clock : Nat) (attendees : List (Attendee Nat Call))
    (event : Event) (rest : List Event) :
    let turn := gather depth clock event attendees
    let later := meet (nextDepth depth event.phase) turn.who (stamped (clock + 1) rest)
    let minutes := meet depth attendees (stamped clock (event :: rest))
    (turn.ending = .finished ∧ minutes.reports = turn.reports ++ later.reports ∧
        minutes.ending = later.ending) ∨
      (turn.ending ≠ .finished ∧ minutes.reports = turn.reports ∧
        minutes.ending = turn.ending) := by
  rcases turned : gather depth clock event attendees with ⟨who, reports, ending⟩
  by_cases finished : ending = .finished
  · subst finished
    rw [stamped, meet_continued _ turned]
    exact .inl ⟨rfl, List.flatten_cons, rfl⟩
  · rw [stamped, meet_ended _ turned finished]
    exact .inr ⟨finished, List.append_nil _, rfl⟩

theorem Attendee.meet_alone (depth clock : Nat) (attendee : Attendee Nat Call) (event : Event)
    (rest : List Event) :
    let turn := attendee.turn depth clock event
    let calls := (meet depth [attendee] (stamped clock (event :: rest))).reports
    (turn.ending = .finished ∧ calls = turn.reports ++
        (meet (nextDepth depth event.phase) [turn.who] (stamped (clock + 1) rest)).reports) ∨
      (turn.ending ≠ .finished ∧ calls = turn.reports) := by
  have first := meet_stamped depth clock [attendee] event rest
  rw [gather_single] at first
  exact first.imp (fun goes => ⟨goes.1, goes.2.1⟩) fun ends => ⟨ends.1, ends.2.1⟩

theorem Attendee.meet_placed (numbered : Numbered member attendees) (depth clock : Nat)
    (events : List Event) :
    ∀ call ∈ (meet depth attendees (stamped clock events)).reports,
      clock ≤ call.time ∧ call.member < member + attendees.length ∧
        events[call.time - clock]? = some call.event := by
  induction events generalizing depth clock attendees with
  | nil => exact List.forall_mem_nil _
  | cons event rest ih =>
      have own : ∀ call ∈ (gather depth clock event attendees).reports,
          clock ≤ call.time ∧ call.member < member + attendees.length ∧
            (event :: rest)[call.time - clock]? = some call.event := by
        intro call made
        obtain ⟨time, _, bound, about⟩ := speak_all_placed numbered _ clock event call made
        exact ⟨Nat.le_of_eq time.symm, bound, by simp [time, about]⟩
      rcases meet_stamped depth clock attendees event rest with
        ⟨_, reports, _⟩ | ⟨_, reports, _⟩
      · rw [reports]
        intro call made
        rcases List.mem_append.mp made with first | later
        · exact own call first
        · obtain ⟨after, bound, about⟩ :=
            ih (numbered.gather depth clock event) _ (clock + 1) call later
          rw [gather_length] at bound
          refine ⟨Nat.le_of_succ_le after, bound, ?_⟩
          rwa [show call.time - clock = (call.time - (clock + 1)) + 1 by omega,
            List.getElem?_cons_succ]
      · rw [reports]
        exact own

theorem Attendee.meet_ordered (numbered : Numbered member attendees) (depth clock : Nat)
    (events : List Event) :
    (meet depth attendees (stamped clock events)).reports.Pairwise Call.Before := by
  induction events generalizing depth clock attendees with
  | nil => exact .nil
  | cons event rest ih =>
      have own : (gather depth clock event attendees).reports.Pairwise Call.Before :=
        speak_all_ordered numbered
      rcases meet_stamped depth clock attendees event rest with
        ⟨_, reports, _⟩ | ⟨_, reports, _⟩
      · rw [reports]
        have numbered' := numbered.gather depth clock event
        refine List.pairwise_append.mpr ⟨own, ih numbered' _ _, ?_⟩
        intro call made later after
        -- One event is over before the next begins.
        refine .inl ?_
        have now := (speak_all_placed numbered _ clock event call made).1
        have next := (meet_placed numbered' _ (clock + 1) rest later after).1
        omega
      · rw [reports]
        exact own

theorem Attendee.meet_course (numbered : Numbered member attendees) (depth clock : Nat)
    (events : List Event) :
    let minutes := meet depth attendees (stamped clock events)
    Call.Course minutes.reports minutes.ending := by
  induction events generalizing depth clock attendees with
  | nil => exact .finished .nil
  | cons event rest ih =>
      have own : Call.Course (gather depth clock event attendees).reports
          (gather depth clock event attendees).ending := speak_all_course numbered
      rcases meet_stamped depth clock attendees event rest with
        ⟨finished, reports, ending⟩ | ⟨_, reports, ending⟩
      · dsimp only
        rw [reports, ending]
        rw [finished] at own
        exact (ih (numbered.gather depth clock event) _ _).after own.calm
      · dsimp only
        rwa [reports, ending]

/-- The calls of a member are those it receives alone, up to the answer that ends the tour. -/
theorem Attendee.meet_part (numbered : Numbered member attendees) (depth clock : Nat)
    (events : List Event) {place : Nat} (found : attendees[place]? = some attendee) :
    let calls := (meet depth attendees (stamped clock events)).reports
    calls.filter (·.member == member + place) =
      (meet depth [attendee] (stamped clock events)).reports.filter (Call.heardBy calls) := by
  induction events generalizing depth clock attendees attendee with
  | nil => rfl
  | cons event rest ih =>
      have part := gather_part numbered depth clock event found
      have course : Call.Course (gather depth clock event attendees).reports
          (gather depth clock event attendees).ending := speak_all_course numbered
      -- What the member receives alone later on comes later in the tour of the party, too.
      have records : Numbered (member + place) [(attendee.turn depth clock event).who] := by
        have alone : Numbered (member + place) [attendee] := ⟨numbered.at_place found, trivial⟩
        have next := alone.gather depth clock event
        rwa [gather_single] at next
      have placed := meet_placed records (nextDepth depth event.phase) (clock + 1) rest
      have spoken := (numbered.at_place found).speak (nodeDepth depth event.phase) clock event
      rcases meet_stamped depth clock attendees event rest with
        ⟨finished, reports, _⟩ | ⟨ended, reports, _⟩
      · obtain ⟨who, goes⟩ := gather_who finished found
        rw [finished] at course
        have numbered' := numbered.gather depth clock event
        have part' := ih numbered' (nextDepth depth event.phase) (clock + 1) who
        have later := meet_placed numbered' (nextDepth depth event.phase) (clock + 1) rest
        rcases meet_alone depth clock attendee event rest with ⟨_, alone⟩ | ⟨ends, _⟩
        · dsimp only
          rw [reports, alone, Call.heard_by_append course.calm, List.filter_append,
            List.filter_append, part, part']
          congr 1
          -- Everything at this event is heard, since whatever ends the tour comes later.
          refine (List.filter_eq_self.mpr fun call _ => Call.heard_by_calm course.calm call).trans
            (List.filter_eq_self.mpr fun call made => Call.heard_by_later fun last after => ?_).symm
          apply Call.within_later
          rw [(spoken.calls call made).1]
          exact (later last after).1
        · exact absurd goes ends
      · rcases meet_alone depth clock attendee event rest with ⟨_, alone⟩ | ⟨_, alone⟩
        · dsimp only
          rw [reports, alone, List.filter_append, part]
          -- Another member has ended the tour, so nothing that comes later is heard.
          refine (List.append_right_eq_self.mpr (List.filter_eq_nil_iff.mpr ?_)).symm
          intro call after
          obtain ⟨last, made, ends⟩ := course.last ended
          rw [Bool.not_eq_true]
          refine Call.unheard made ends (Call.outside_earlier ?_)
          rw [(speak_all_placed numbered _ clock event last made).1]
          exact (placed call after).1
        · dsimp only
          rw [reports, alone, part]

end WholeTour

/-! Recording changes nothing for the party: without it the tour ends in the same way. -/
section Unrecorded
variable {depth clock member : Nat} {attendee : Attendee Nat Call}
  {attendees : List (Attendee Nat Call)}

/-- Nothing is recorded, and there is no clock. -/
def Recording.unrecorded : Board Unit Nat Call where
  view _ := 0
  post _ _ := ()
  view_post _ _ := rfl
  post_nil _ := rfl
  post_append _ _ _ := rfl

theorem Visitor.unrecorded_eq (member : Nat) (visitor : Visitor Unit) :
    Recording.unrecorded.visitor (visitor.recorder member) = visitor := by
  simp only [Board.visitor, recorder, Option.map_map]
  have same {State : Type} (phase : Phase) : Recording.unrecorded.callback ∘
      (remember member phase : Callback State Unit → Response State Nat Call) = id := rfl
  simp only [same, Option.map_id, id]

theorem Attendee.Records.clockless (records : attendee.Records member) (depth clock : Nat)
    (event : Event) :
    (attendee.speak depth clock event).who = (attendee.speak depth 0 event).who ∧
      (attendee.speak depth clock event).ending = (attendee.speak depth 0 event).ending := by
  obtain ⟨visitor, same⟩ := records
  by_cases mute : attendee.skippedAt.isSome = true
  · simp only [speak_mute mute, and_self]
  · rw [speak_heard depth clock event mute, speak_heard depth 0 event mute]
    rcases attendee with ⟨reporter, level⟩
    subst same
    rcases visitor.recorder_on member event.phase event.node.kind with
      unregistered | ⟨callback, registered⟩
    · simp only [Reporter.react, unregistered, Reporter.call, and_self]
    · simp only [Reporter.react, registered, Reporter.call, Visitor.remember, and_self]

theorem speak_all_clockless (numbered : Numbered member attendees) (depth clock : Nat)
    (event : Event) :
    (speakAll depth clock event attendees).who = (speakAll depth 0 event attendees).who ∧
      (speakAll depth clock event attendees).ending =
        (speakAll depth 0 event attendees).ending := by
  induction attendees generalizing member with
  | nil => exact ⟨rfl, rfl⟩
  | cons first rest ih =>
      obtain ⟨who, ending⟩ := numbered.1.clockless depth clock event
      by_cases continued : (first.speak depth 0 event).ending = .finished
      · obtain ⟨others, last⟩ := ih numbered.2
        rw [speak_all_continued rest continued, speak_all_continued rest (ending.trans continued)]
        exact ⟨by dsimp only; rw [who, others], last⟩
      · rw [speak_all_ended rest continued, speak_all_ended rest (ending ▸ continued)]
        exact ⟨by dsimp only; rw [who], ending⟩

theorem Recording.unrecorded_follow (events : List Event)
    (sound : ∀ event ∈ events, event.node.flaw? = none)
    (numbered : Numbered member attendees) (depth clock : Nat) :
    (Party.guide.follow (unrecorded.party depth attendees, ()) events).2 =
      (meet depth attendees (stamped clock events)).ending := by
  induction events generalizing depth clock attendees with
  | nil => rfl
  | cons event rest ih =>
      obtain ⟨party, answered, next⟩ :=
        unrecorded.party_answer depth attendees () (sound event List.mem_cons_self)
      obtain ⟨who, ending⟩ :=
        speak_all_clockless numbered (nodeDepth depth event.phase) clock event
      have later := fun other member => sound other (List.mem_cons_of_mem _ member)
      rcases meet_stamped depth clock attendees event rest with
        ⟨finished, _, last⟩ | ⟨ended, _, last⟩
      · have finished' := ending.symm.trans finished
        have same : (gather depth clock event attendees).who =
            (gather depth 0 event attendees).who :=
          congrArg (List.map (awaken (nodeDepth depth event.phase) event.phase)) who
        have goes : (gather depth 0 event attendees).ending = .finished := finished'
        rw [last, same, Guide.follow_continued rest (goes ▸ answered), next finished']
        exact ih later (numbered.gather depth 0 event) _ _
      · have ends : (gather depth 0 event attendees).ending ≠ .finished :=
          fun same => ended (ending.trans same)
        rw [last, Guide.follow_ended rest answered ends]
        exact ending.symm

theorem Party.lineup_numbered (visitors : List (Visitor Unit)) (member : Nat) :
    Numbered member (lineup (visitors.zipIdx member)) := by
  induction visitors generalizing member with
  | nil => trivial
  | cons visitor rest ih => exact ⟨⟨visitor, rfl⟩, ih (member + 1)⟩

theorem Party.ending_eq (visitors : List (Visitor Unit)) {root : Node} (intact : root.Intact) :
    (guide.tour (ofVisitors visitors, ()) root).2 =
      (meet 0 (lineup visitors.zipIdx) (stamped 0 root.events)).ending := by
  have joined : ofVisitors visitors = Recording.unrecorded.party 0 (lineup visitors.zipIdx) := by
    have reporters := Recording.unrecorded.party_of_visitors
      (visitors.zipIdx.map fun entry => entry.1.recorder entry.2)
    simp only [List.map_map, Function.comp_def, Visitor.unrecorded_eq] at reporters
    exact (congrArg ofVisitors (List.zipIdx_map_fst 0 visitors)).symm.trans reporters
  rw [Guide.tour_eq_follow _ never_skips, joined]
  exact Recording.unrecorded_follow root.events intact (lineup_numbered visitors 0) 0 0

end Unrecorded

section Refinement
variable (visitors : List (Visitor Unit)) {root : Node}

theorem Party.lineup_at {member : Nat} {visitor : Visitor Unit}
    (found : visitors[member]? = some visitor) :
    (lineup visitors.zipIdx)[member]? = some (visitor.recorder member).newcomer := by
  simp only [lineup, List.getElem?_map, List.getElem?_zipIdx, found, Option.map_some, Nat.zero_add]

theorem Party.lineup_length : (lineup visitors.zipIdx).length = visitors.length := by
  rw [lineup, List.length_map, List.length_zipIdx]

/-- What each member of a party receives, and when, compared with what it receives alone.
The time of a call is the number of its event among all events of the tree. -/
structure Party.Refines (visitors : List (Visitor Unit)) (root : Node) : Prop where
  ordered : (calls visitors root).Pairwise Call.Before
  placed : ∀ call ∈ calls visitors root,
    call.member < visitors.length ∧ root.events[call.time]? = some call.event
  alone_placed : ∀ member visitor, ∀ call ∈ Visitor.calls member visitor root,
    root.events[call.time]? = some call.event
  finished : (∀ call ∈ calls visitors root, call.ends = false) →
    (guide.tour (ofVisitors visitors, ()) root).2 = .finished ∧
      ∀ member visitor, visitors[member]? = some visitor →
        (calls visitors root).filter (·.member == member) = visitor.calls member root
  cut : ∀ last ∈ calls visitors root, last.ends = true →
    (∀ call ∈ calls visitors root, call.within last = true) ∧
      ∀ member visitor, visitors[member]? = some visitor →
        (calls visitors root).filter (·.member == member) =
          (visitor.calls member root).filter (·.within last)

theorem party_refines_members (sound : root.Sound) : Party.Refines visitors root := by
  have intact := sound.intact
  have numbered := Party.lineup_numbered visitors 0
  have placed := meet_placed numbered 0 0 root.events
  have ordered := meet_ordered numbered 0 0 root.events
  have course := meet_course numbered 0 0 root.events
  have part := fun member visitor (found : visitors[member]? = some visitor) =>
    meet_part numbered 0 0 root.events (Party.lineup_at visitors found)
  simp only [Nat.zero_add, Party.lineup_length, ← Party.calls_eq visitors intact,
    ← Visitor.calls_eq _ _ intact] at placed ordered course part
  constructor
  case ordered => exact ordered
  case placed => exact fun call made => (placed call made).2
  case alone_placed =>
    intro member visitor call made
    have alone : Numbered member [(visitor.recorder member).newcomer] := ⟨⟨visitor, rfl⟩, trivial⟩
    rw [Visitor.calls_eq _ _ intact] at made
    exact (meet_placed alone 0 0 root.events call made).2.2
  case finished =>
    intro calm
    rw [Party.ending_eq visitors intact]
    refine ⟨course.finished_of_calm calm, fun member visitor found => ?_⟩
    exact (part member visitor found).trans
      (List.filter_eq_self.mpr fun call _ => Call.heard_by_calm calm call)
  case cut =>
    intro last made ends
    obtain ⟨before, all, calm⟩ := course.unique made ends
    rw [all] at ordered part ⊢
    refine ⟨fun call made => ?_, fun member visitor found => ?_⟩
    · rcases List.mem_append.mp made with early | only
      · exact ((List.pairwise_append.mp ordered).2.2 call early last List.mem_cons_self).within
      · rw [List.mem_singleton.mp only]
        exact last.within_self
    · have heard := part member visitor found
      rwa [Call.heard_by_append calm, Call.heard_by_single ends] at heard

/-- A selection of one fragment: the first visitor skips it, the second stops on the way
back. -/
theorem party_refines_members_skip_stop :
    let spread := Node.selection (.spread ⟨.start, "A", []⟩)
    let root := Node.selectionSet ⟨.start, [.spread ⟨.start, "A", []⟩]⟩
    let skipping := (Visitor.named "skipping").skipping .selectionSet
    let stopping := (Visitor.named "stopping").leaving .fragmentSpread
      fun state context _ => ⟨state, context, .ok .stop⟩
    root.Sound ∧ root.children = [spread] ∧ Party.Refines [skipping, stopping] root := by
  intro spread root skipping stopping
  have sound : root.Sound := by
    simp [root, Node.Sound, Node.listing, Node.tree_eq, Node.children, Node.ofSelection,
      Tree.listing, Tree.listingAll, Node.flaw?]
  exact ⟨sound, rfl, party_refines_members [skipping, stopping] sound⟩

end Refinement
end GraphQL
