import GraphQL.Proofs.Events
import GraphQL.Tour.Party

/-! Visitors that share a context only by reporting to it. A board is a context of which
a reporter sees a view and to which it posts reports; no report changes the view. What a
party of reporters does at an event is then the same for all boards that show the same
view, and each member's part in it can be told from that member alone. -/
namespace GraphQL

section Boards

structure Board (Context View Report : Type) where
  view : Context → View
  post : Context → List Report → Context
  view_post : ∀ context reports, view (post context reports) = view context
  post_nil : ∀ context, post context [] = context
  post_append : ∀ context reports more,
    post context (reports ++ more) = post (post context reports) more

structure Reaction (State Report : Type) where
  state : State
  reports : List Report
  answer : Except String Action

abbrev Response (State View Report : Type) := State → View → Node → Reaction State Report

structure Reporter (View Report : Type) where
  name : String
  State : Type
  state : State
  onEnter : NodeKind → Option (Response State View Report)
  onLeave : NodeKind → Option (Response State View Report)

variable {Context View Report : Type}

def Board.callback {State : Type} (board : Board Context View Report)
    (response : Response State View Report) : Callback State Context :=
  fun state context node =>
    let reaction := response state (board.view context) node
    ⟨reaction.state, board.post context reaction.reports, reaction.answer⟩

def Board.visitor (board : Board Context View Report) (reporter : Reporter View Report) :
    Visitor Context where
  name := reporter.name
  State := reporter.State
  state := reporter.state
  onEnter kind := (reporter.onEnter kind).map board.callback
  onLeave kind := (reporter.onLeave kind).map board.callback

namespace Reporter

def on (reporter : Reporter View Report) :
    Phase → NodeKind → Option (Response reporter.State View Report)
  | .entering => reporter.onEnter
  | .leaving => reporter.onLeave

/-- What a reporter turns into, what it reports and how it answers. -/
def call (reporter : Reporter View Report)
    (response? : Option (Response reporter.State View Report)) (view : View) (node : Node) :
    Reporter View Report × List Report × Except Fault Action :=
  match response? with
  | none => (reporter, [], .ok .proceed)
  | some response =>
      let reaction := response reporter.state view node
      ({ reporter with state := reaction.state }, reaction.reports,
        Visitor.answer reporter.name node.kind reaction.answer)

def react (reporter : Reporter View Report) (view : View) (event : Event) :
    Reporter View Report × List Report × Except Fault Action :=
  reporter.call (reporter.on event.phase event.node.kind) view event.node

end Reporter

namespace Board
variable (board : Board Context View Report)

theorem visitor_call (reporter : Reporter View Report)
    (response? : Option (Response reporter.State View Report)) (context : Context)
    (node : Node) :
    (board.visitor reporter).call (response?.map board.callback) context node =
      let reaction := reporter.call response? (board.view context) node
      ((board.visitor reaction.1, board.post context reaction.2.1), reaction.2.2) := by
  cases response? with
  | none =>
      simp only [Reporter.call, board.post_nil]
      rfl
  | some response => rfl

theorem visitor_enter (reporter : Reporter View Report) (context : Context) (node : Node) :
    (board.visitor reporter).enter context node =
      let reaction := reporter.react (board.view context) ⟨.entering, node⟩
      ((board.visitor reaction.1, board.post context reaction.2.1), reaction.2.2) :=
  board.visitor_call reporter _ context node

theorem visitor_leave (reporter : Reporter View Report) (context : Context) (node : Node) :
    (board.visitor reporter).leave context node =
      let reaction := reporter.react (board.view context) ⟨.leaving, node⟩
      ((board.visitor reaction.1, board.post context reaction.2.1), reaction.2.2) :=
  board.visitor_call reporter _ context node

end Board
end Boards

/-! A reporter that attends a party, and what it contributes to an event. -/
section Attending

structure Attendee (View Report : Type) where
  reporter : Reporter View Report
  skippedAt : Option Nat

/-- Who is there after an event, what was reported, and how the event ended. -/
structure Turn (Who : Type 1) (Report : Type) where
  who : Who
  reports : List Report
  ending : Ending

variable {Context View Report : Type}

namespace Attendee

/-- A node that is entered can be skipped, a node that is left cannot. -/
def skipLevel (depth : Nat) : Phase → Except Fault Action → Option Nat
  | .entering, .ok .skip => some depth
  | _, _ => none

def speak (depth : Nat) (view : View) (event : Event) (attendee : Attendee View Report) :
    Turn (Attendee View Report) Report :=
  if attendee.skippedAt.isSome then ⟨attendee, [], .finished⟩
  else
    let reaction := attendee.reporter.react view event
    ⟨⟨reaction.1, skipLevel depth event.phase reaction.2.2⟩, reaction.2.1,
      .ofAnswer reaction.2.2⟩

def wake (depth : Nat) (attendee : Attendee View Report) : Attendee View Report :=
  if attendee.skippedAt = some depth then ⟨attendee.reporter, none⟩ else attendee

def awaken (depth : Nat) (phase : Phase) (attendee : Attendee View Report) :
    Attendee View Report :=
  match phase with
  | .entering => attendee
  | .leaving => attendee.wake depth

theorem awaken_entering (depth : Nat) (attendees : List (Attendee View Report)) :
    attendees.map (awaken depth .entering) = attendees := List.map_id' attendees

/-- The members speak in order until one of them ends the tour. -/
def speakAll (depth : Nat) (view : View) (event : Event) :
    List (Attendee View Report) → Turn (List (Attendee View Report)) Report
  | [] => ⟨[], [], .finished⟩
  | attendee :: rest =>
      let turn := attendee.speak depth view event
      match turn.ending with
      | .finished =>
          let others := speakAll depth view event rest
          ⟨turn.who :: others.who, turn.reports ++ others.reports, others.ending⟩
      | ending => ⟨turn.who :: rest, turn.reports, ending⟩

def muted (attendees : List (Attendee View Report)) : Nat :=
  attendees.countP fun attendee => attendee.skippedAt.isSome

section Speaking
variable {depth : Nat} {view : View} {event : Event} {attendee : Attendee View Report}

theorem speak_mute (mute : attendee.skippedAt.isSome = true) :
    attendee.speak depth view event = ⟨attendee, [], .finished⟩ := by
  rw [speak, if_pos mute]

theorem speak_heard (depth : Nat) (view : View) (event : Event)
    (heard : ¬ attendee.skippedAt.isSome = true) :
    attendee.speak depth view event =
      let reaction := attendee.reporter.react view event
      ⟨⟨reaction.1, skipLevel depth event.phase reaction.2.2⟩, reaction.2.1,
        .ofAnswer reaction.2.2⟩ := by
  rw [speak, if_neg heard]

theorem speak_all_continued (rest : List (Attendee View Report))
    (finished : (attendee.speak depth view event).ending = .finished) :
    speakAll depth view event (attendee :: rest) =
      let turn := attendee.speak depth view event
      let others := speakAll depth view event rest
      ⟨turn.who :: others.who, turn.reports ++ others.reports, others.ending⟩ := by
  simp only [speakAll, finished]

theorem speak_all_ended (rest : List (Attendee View Report))
    (ended : (attendee.speak depth view event).ending ≠ .finished) :
    speakAll depth view event (attendee :: rest) =
      let turn := attendee.speak depth view event
      ⟨turn.who :: rest, turn.reports, turn.ending⟩ := by
  rw [speakAll]
  split
  · contradiction
  · rfl

/-- An event that nobody ends is the events of its members side by side. -/
theorem speak_all_finished (attendees : List (Attendee View Report))
    (each : ∀ attendee ∈ attendees, (attendee.speak depth view event).ending = .finished) :
    speakAll depth view event attendees =
      ⟨attendees.map fun attendee => (attendee.speak depth view event).who,
        attendees.flatMap fun attendee => (attendee.speak depth view event).reports,
        .finished⟩ := by
  induction attendees with
  | nil => rfl
  | cons attendee rest ih =>
      rw [speak_all_continued rest (each attendee List.mem_cons_self),
        ih fun other member => each other (List.mem_cons_of_mem _ member)]
      rfl

theorem each_finished (attendees : List (Attendee View Report))
    (finished : (speakAll depth view event attendees).ending = .finished) :
    ∀ attendee ∈ attendees, (attendee.speak depth view event).ending = .finished := by
  induction attendees with
  | nil => nofun
  | cons first rest ih =>
      by_cases continued : (first.speak depth view event).ending = .finished
      · rw [speak_all_continued rest continued] at finished
        intro attendee member
        rcases List.mem_cons.mp member with rfl | later
        · exact continued
        · exact ih finished attendee later
      · rw [speak_all_ended rest continued] at finished
        exact absurd finished continued

end Speaking

end Attendee

namespace Board
variable (board : Board Context View Report)

def member (attendee : Attendee View Report) : Member Context :=
  ⟨board.visitor attendee.reporter, attendee.skippedAt⟩

def party (depth : Nat) (attendees : List (Attendee View Report)) : Party Context :=
  ⟨depth, Attendee.muted attendees, attendees.map board.member⟩

/-- What the members leave behind at a node is what the attendees say there. -/
structure Matches (context : Context) (passage : Party.Passage Context)
    (turn : Turn (List (Attendee View Report)) Report) : Prop where
  context : passage.context = board.post context turn.reports
  members : passage.members = turn.who.map board.member
  ending : Ending.ofAnswer passage.answer = turn.ending
  unskipped : passage.answer ≠ .ok .skip

variable {board}

/-- A member that has had its say stands before the others. -/
theorem Matches.after {context : Context} {reports : List Report}
    {passage : Party.Passage Context} {turn : Turn (List (Attendee View Report)) Report}
    (others : board.Matches (board.post context reports) passage turn)
    (attendee : Attendee View Report) :
    board.Matches context (passage.after (board.member attendee))
      ⟨attendee :: turn.who, reports ++ turn.reports, turn.ending⟩ where
  context := by rw [Party.Passage.after, others.context, board.post_append]
  members := by rw [Party.Passage.after, others.members, List.map_cons]
  ending := others.ending
  unskipped := others.unskipped

theorem Matches.after_silence {context : Context} {passage : Party.Passage Context}
    {turn : Turn (List (Attendee View Report)) Report}
    (others : board.Matches context passage turn) (attendee : Attendee View Report) :
    board.Matches context (passage.after (board.member attendee))
      ⟨attendee :: turn.who, turn.reports, turn.ending⟩ := by
  have told : board.Matches (board.post context []) passage turn := by
    rwa [board.post_nil]
  exact told.after attendee

variable (board)

open Attendee in
theorem enter_members (depth : Nat) (node : Node) (attendees : List (Attendee View Report))
    (silent : Nat) (context : Context) :
    let passage := Party.enterMembers depth node silent context (attendees.map board.member)
    let turn := speakAll depth (board.view context) ⟨.entering, node⟩ attendees
    board.Matches context passage turn ∧
      passage.silent + muted attendees = silent + muted turn.who := by
  induction attendees generalizing silent context with
  | nil => exact ⟨⟨(board.post_nil context).symm, rfl, rfl, nofun⟩, rfl⟩
  | cons attendee rest ih =>
      dsimp only
      rw [List.map_cons, Party.enterMembers, member]
      by_cases mute : attendee.skippedAt.isSome = true
      · obtain ⟨others, count⟩ := ih silent context
        rw [if_pos mute, speak_all_continued rest (by rw [speak_mute mute]), speak_mute mute]
        refine ⟨others.after_silence attendee, ?_⟩
        simp only [Party.Passage.after, muted, List.countP_cons, mute, ↓reduceIte] at count ⊢
        omega
      · have heard := speak_heard depth (board.view context) ⟨.entering, node⟩ mute
        have unmuted : attendee.skippedAt = none := by simpa using mute
        rw [if_neg mute, board.visitor_enter]
        generalize attendee.reporter.react (board.view context) ⟨.entering, node⟩ = reaction
          at heard ⊢
        rcases reaction with ⟨reporter, reports, fault | _ | _ | _⟩
        · rw [speak_all_ended rest (by rw [heard]; nofun), heard]
          refine ⟨⟨rfl, rfl, rfl, nofun⟩, ?_⟩
          simp [muted, unmuted, skipLevel]
        · obtain ⟨others, count⟩ := ih silent (board.post context reports)
          rw [board.view_post] at others count
          rw [speak_all_continued rest (by rw [heard]; rfl), heard]
          refine ⟨others.after ⟨reporter, none⟩, ?_⟩
          simpa [Party.Passage.after, muted, unmuted, skipLevel] using count
        · obtain ⟨others, count⟩ := ih (silent + 1) (board.post context reports)
          rw [board.view_post] at others count
          rw [speak_all_continued rest (by rw [heard]; rfl), heard]
          refine ⟨others.after ⟨reporter, some depth⟩, ?_⟩
          simp only [Party.Passage.after, muted, unmuted, skipLevel, List.countP_cons] at count ⊢
          simp only [Option.isSome_none, Option.isSome_some, ↓reduceIte, Bool.false_eq_true]
          omega
        · rw [speak_all_ended rest (by rw [heard]; nofun), heard]
          refine ⟨⟨rfl, rfl, rfl, nofun⟩, ?_⟩
          simp [muted, unmuted, skipLevel]

open Attendee in
theorem leave_members (depth : Nat) (node : Node) (attendees : List (Attendee View Report))
    (silent : Nat) (context : Context) :
    let passage := Party.leaveMembers node silent context (attendees.map board.member)
    let turn := speakAll depth (board.view context) ⟨.leaving, node⟩ attendees
    board.Matches context passage turn ∧
      passage.silent = silent ∧ muted turn.who = muted attendees := by
  induction attendees generalizing silent context with
  | nil => exact ⟨⟨(board.post_nil context).symm, rfl, rfl, nofun⟩, rfl, rfl⟩
  | cons attendee rest ih =>
      dsimp only
      rw [List.map_cons, Party.leaveMembers, member]
      by_cases mute : attendee.skippedAt.isSome = true
      · obtain ⟨others, same, count⟩ := ih silent context
        rw [if_pos mute, speak_all_continued rest (by rw [speak_mute mute]), speak_mute mute]
        refine ⟨others.after_silence attendee, same, ?_⟩
        simp only [muted, List.countP_cons] at count ⊢
        rw [count]
      · have heard := speak_heard depth (board.view context) ⟨.leaving, node⟩ mute
        rw [if_neg mute, board.visitor_leave]
        generalize attendee.reporter.react (board.view context) ⟨.leaving, node⟩ = reaction
          at heard ⊢
        have unmuted : attendee.skippedAt = none := by simpa using mute
        obtain ⟨others, same, count⟩ := ih silent (board.post context reaction.2.1)
        rw [board.view_post] at others count
        rcases reaction with ⟨reporter, reports, fault | _ | _ | _⟩
        · rw [speak_all_ended rest (by rw [heard]; nofun), heard]
          refine ⟨⟨rfl, rfl, rfl, nofun⟩, rfl, ?_⟩
          simp [muted, unmuted, skipLevel]
        · rw [speak_all_continued rest (by rw [heard]; rfl), heard]
          refine ⟨others.after ⟨reporter, none⟩, same, ?_⟩
          simpa [muted, unmuted, skipLevel] using count
        · rw [speak_all_continued rest (by rw [heard]; rfl), heard]
          refine ⟨others.after ⟨reporter, none⟩, same, ?_⟩
          simpa [muted, unmuted, skipLevel] using count
        · rw [speak_all_ended rest (by rw [heard]; nofun), heard]
          refine ⟨⟨rfl, rfl, rfl, nofun⟩, rfl, ?_⟩
          simp [muted, unmuted, skipLevel]

open Attendee in
theorem wake_members (depth : Nat) (attendees : List (Attendee View Report)) (silent : Nat)
    (enough : muted attendees ≤ silent) :
    let woken := Party.wake depth (attendees.map board.member) silent
    woken.1 = (attendees.map (wake depth)).map board.member ∧
      woken.2 + muted attendees = silent + muted (attendees.map (wake depth)) := by
  induction attendees generalizing silent with
  | nil => exact ⟨rfl, rfl⟩
  | cons attendee rest ih =>
      simp only [List.map_cons, Party.wake, member, wake, muted, List.countP_cons] at enough ⊢
      by_cases skipped : attendee.skippedAt = some depth
      · simp only [skipped, Option.isSome_some, ↓reduceIte, Option.isSome_none] at enough ⊢
        obtain ⟨members, count⟩ := ih (silent - 1) (by simp only [muted]; omega)
        simp only [muted] at count
        refine ⟨by rw [members], ?_⟩
        simp only [Bool.false_eq_true, ↓reduceIte]
        omega
      · simp only [skipped, ↓reduceIte] at enough ⊢
        obtain ⟨members, count⟩ := ih silent (by simp only [muted]; omega)
        simp only [muted] at count
        exact ⟨by rw [members], by omega⟩

open Attendee in
theorem depart_party (depth : Nat) (attendees : List (Attendee View Report))
    (passage : Party.Passage Context) (members : passage.members = attendees.map board.member)
    (silent : passage.silent = muted attendees) :
    Party.depart depth passage = board.party (depth - 1) (attendees.map (wake depth)) := by
  rw [Party.depart, members, silent]
  split
  · next some =>
    obtain ⟨woken, count⟩ := board.wake_members depth attendees _ (Nat.le_refl _)
    simp only [party, woken]
    congr 1
    omega
  · next none =>
    -- Nobody is muted, so there is nobody to wake.
    have awake : attendees.map (wake depth) = attendees := by
      refine (List.map_congr_left fun attendee present => ?_).trans (List.map_id attendees)
      have unmuted := List.countP_eq_zero.mp (Nat.eq_zero_of_not_pos none) attendee present
      rw [wake, if_neg (by rintro same; simp [same] at unmuted)]
      rfl
    rw [awake, party]

end Board
end Attending

/-! One event, and then one event after the other. -/
section Meeting
variable {Context View Report : Type}

namespace Attendee

/-- The depth of the node of an event, counted from where the party stands before it. -/
def nodeDepth (depth : Nat) : Phase → Nat
  | .entering => depth + 1
  | .leaving => depth

def nextDepth (depth : Nat) : Phase → Nat
  | .entering => depth + 1
  | .leaving => depth - 1

def gather (depth : Nat) (view : View) (event : Event)
    (attendees : List (Attendee View Report)) : Turn (List (Attendee View Report)) Report :=
  let level := nodeDepth depth event.phase
  let turn := speakAll level view event attendees
  { turn with who := turn.who.map (awaken level event.phase) }

/-- The part of one member in an event. -/
def turn (depth : Nat) (view : View) (event : Event) (attendee : Attendee View Report) :
    Turn (Attendee View Report) Report :=
  let level := nodeDepth depth event.phase
  let turn := attendee.speak level view event
  { turn with who := turn.who.awaken level event.phase }

theorem gather_single (depth : Nat) (view : View) (event : Event)
    (attendee : Attendee View Report) :
    gather depth view event [attendee] =
      let turn := attendee.turn depth view event
      ⟨[turn.who], turn.reports, turn.ending⟩ := by
  simp only [gather, turn]
  generalize nodeDepth depth event.phase = level
  by_cases finished : (attendee.speak level view event).ending = .finished
  · rw [speak_all_continued [] finished, finished]
    simp only [speakAll, List.append_nil, List.map_cons, List.map_nil]
  · rw [speak_all_ended [] finished]
    simp only [List.map_cons, List.map_nil]

/-- Who is mute stays mute until the node that was skipped is left. -/
theorem gather_mute {depth level : Nat} (view : View) {event : Event}
    (reporter : Reporter View Report) (other : event.phase = .leaving → level ≠ depth) :
    gather depth view event [⟨reporter, some level⟩] =
      ⟨[⟨reporter, some level⟩], [], .finished⟩ := by
  rw [gather_single, turn, speak_mute rfl]
  rcases event with ⟨_ | _, node⟩
  · rfl
  · have apart : ¬ some level = some depth := by simpa using other rfl
    simp only [nodeDepth, awaken, wake, apart, ↓reduceIte]

theorem gather_waking (depth : Nat) (view : View) (node : Node) (reporter : Reporter View Report) :
    gather depth view ⟨.leaving, node⟩ [⟨reporter, some depth⟩] =
      ⟨[⟨reporter, none⟩], [], .finished⟩ := by
  rw [gather_single, turn, speak_mute rfl]
  simp only [nodeDepth, awaken, wake, ↓reduceIte]

end Attendee

namespace Board
open Attendee
variable (board : Board Context View Report) (depth : Nat)
  (attendees : List (Attendee View Report)) (context : Context)

theorem party_enter (node : Node) :
    let turn := gather depth (board.view context) ⟨.entering, node⟩ attendees
    ∃ answer, Party.guide.enter (board.party depth attendees, context) node =
        ((board.party (depth + 1) turn.who, board.post context turn.reports), answer) ∧
      Ending.ofAnswer answer = turn.ending := by
  obtain ⟨told, count⟩ :=
    board.enter_members (depth + 1) node attendees (muted attendees) context
  refine ⟨_, ?_, told.ending⟩
  simp only [Party.guide, Party.enter, party, told.context, told.members, gather, nodeDepth,
    awaken_entering]
  congr 3
  omega

theorem party_leave (node : Node) :
    let turn := gather depth (board.view context) ⟨.leaving, node⟩ attendees
    ∃ party answer, Party.guide.leave (board.party depth attendees, context) node =
        ((party, board.post context turn.reports), answer) ∧
      Ending.ofAnswer answer = turn.ending ∧
      (turn.ending = .finished → party = board.party (depth - 1) turn.who) := by
  obtain ⟨told, same, count⟩ := board.leave_members depth node attendees (muted attendees) context
  simp only [Party.guide, Party.leave, party, gather, nodeDepth]
  generalize Party.leaveMembers node (muted attendees) context (attendees.map board.member) =
    passage at told same ⊢
  generalize speakAll depth (board.view context) ⟨.leaving, node⟩ attendees = turn at told count ⊢
  have departs := board.depart_party depth turn.who passage told.members (same.trans count.symm)
  rcases passage with ⟨silent, members, after, fault | _ | _ | _⟩
  · refine ⟨_, _, by rw [← told.context], told.ending, ?_⟩
    rw [← told.ending]
    nofun
  · exact ⟨_, _, by rw [← told.context], told.ending, fun _ => departs⟩
  · exact absurd rfl told.unskipped
  · refine ⟨_, _, by rw [← told.context], told.ending, ?_⟩
    rw [← told.ending]
    nofun

/-- What an event does to a party is what its members make of it in turn. -/
theorem party_answer {event : Event} (sound : event.node.flaw? = none) :
    let turn := gather depth (board.view context) event attendees
    ∃ party, Party.guide.answer (board.party depth attendees, context) event =
        ((party, board.post context turn.reports), turn.ending) ∧
      (turn.ending = .finished → party = board.party (nextDepth depth event.phase) turn.who) := by
  rcases event with ⟨_ | _, node⟩
  · obtain ⟨answer, entered, ending⟩ := board.party_enter depth attendees context node
    refine ⟨_, ?_, fun _ => rfl⟩
    have same : node.flaw? = none := sound
    simp only [Guide.answer, same, Guide.end_after_eq, entered, ending]
    rfl
  · obtain ⟨party, answer, left, ending, finished⟩ :=
      board.party_leave depth attendees context node
    refine ⟨party, ?_, finished⟩
    rw [Guide.answer, Guide.end_after_eq, left, ending]

end Board

section Minutes
open Attendee

/-- What is reported event by event, up to the event that ends the tour. -/
structure Minutes (Report : Type) where
  entries : List (List Report)
  ending : Ending

def Attendee.meet (depth : Nat) (attendees : List (Attendee View Report)) :
    List (View × Event) → Minutes Report
  | [] => ⟨[], .finished⟩
  | (view, event) :: rest =>
      let turn := gather depth view event attendees
      match turn.ending with
      | .finished =>
          let later := meet (nextDepth depth event.phase) turn.who rest
          ⟨turn.reports :: later.entries, later.ending⟩
      | ending => ⟨[turn.reports], ending⟩

def Minutes.reports {Report : Type} (minutes : Minutes Report) : List Report :=
  minutes.entries.flatten

variable {depth : Nat} {attendees who : List (Attendee View Report)} {view : View}
  {event : Event} {reports : List Report} {ending : Ending}

theorem Attendee.meet_continued (rest : List (View × Event))
    (turned : gather depth view event attendees = ⟨who, reports, .finished⟩) :
    meet depth attendees ((view, event) :: rest) =
      let later := meet (nextDepth depth event.phase) who rest
      ⟨reports :: later.entries, later.ending⟩ := by
  simp only [meet, turned]

theorem Attendee.meet_ended (rest : List (View × Event))
    (turned : gather depth view event attendees = ⟨who, reports, ending⟩)
    (ended : ending ≠ .finished) :
    meet depth attendees ((view, event) :: rest) = ⟨[reports], ending⟩ := by
  rw [meet, turned]
  split
  · contradiction
  · rfl

end Minutes

section Arriving

def Reporter.newcomer (reporter : Reporter View Report) : Attendee View Report :=
  ⟨reporter, none⟩

theorem Board.party_of_visitors (board : Board Context View Report)
    (reporters : List (Reporter View Report)) :
    Party.ofVisitors (reporters.map board.visitor) =
      board.party 0 (reporters.map Reporter.newcomer) := by
  have unmuted : Attendee.muted (reporters.map Reporter.newcomer) = 0 := by
    rw [Attendee.muted, List.countP_map]
    exact List.countP_eq_zero.mpr fun _ _ => Bool.false_ne_true
  rw [Party.ofVisitors, Board.party, unmuted, List.map_map, List.map_map]
  rfl

end Arriving
end Meeting

section Skipping
variable {Context : Type}

theorem Party.enter_members_unskipped (depth : Nat) (node : Node) (silent : Nat)
    (context : Context) (members : List (Member Context)) :
    (enterMembers depth node silent context members).answer ≠ .ok .skip := by
  induction members generalizing silent context with
  | nil => nofun
  | cons member rest ih =>
      rw [enterMembers]
      split
      · exact ih silent context
      · rcases member.visitor.enter context node with ⟨⟨visitor, after⟩, fault | _ | _ | _⟩
        · nofun
        · exact ih silent after
        · exact ih (silent + 1) after
        · nofun

/-- A party goes below every node, since some member may still want to. -/
theorem Party.never_skips : (Party.guide : Guide (Party Context × Context)).NeverSkips :=
  fun _ _ => Party.enter_members_unskipped _ _ _ _ _

theorem Party.wake_visitors (depth silent : Nat) (members : List (Member Context)) :
    (wake depth members silent).1.map Member.visitor = members.map Member.visitor := by
  induction members generalizing silent with
  | nil => rfl
  | cons member rest ih =>
      rw [wake]
      split
      · exact congrArg (member.visitor :: ·) (ih (silent - 1))
      · exact congrArg (member.visitor :: ·) (ih silent)

/-- Who wakes is the visitor that skipped. -/
theorem Party.depart_visitors (depth : Nat) (passage : Passage Context) :
    (depart depth passage).members.map Member.visitor = passage.members.map Member.visitor := by
  rw [depart]
  split
  · exact wake_visitors depth passage.silent passage.members
  · rfl

end Skipping
end GraphQL
