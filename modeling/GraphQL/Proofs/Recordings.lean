import GraphQL.Proofs.Reporters

/-! Recordings of tours. Visitors that keep to their own states are recorded: each call of
a callback is noted with its time, which is the number of the event among all events of
the tree, whether or not the visitor hears of them. A tour that skips a node lets the time
of the events below it pass. -/
namespace GraphQL

section Calls

structure Call where
  time : Nat
  member : Nat
  phase : Phase
  node : Node
  answer : Except String Action

namespace Call

/-- Whether the answer ends the tour. -/
def ends (call : Call) : Bool :=
  match call.answer with
  | .ok .proceed | .ok .skip => false
  | _ => true

def event (call : Call) : Event := ⟨call.phase, call.node⟩

/-- By time, and at the same time by the order of the members. -/
def Before (call later : Call) : Prop :=
  call.time < later.time ∨ call.time = later.time ∧ call.member < later.member

end Call

structure Recording where
  clock : Nat
  calls : List Call

namespace Recording

def blank : Recording := ⟨0, []⟩

def note (call : Call) (recording : Recording) : Recording :=
  { recording with calls := recording.calls ++ [call] }

def tick (time : Nat) (recording : Recording) : Recording :=
  { recording with clock := recording.clock + time }

theorem tick_tick (recording : Recording) (time more : Nat) :
    (recording.tick time).tick more = recording.tick (time + more) := by
  simp only [tick, Nat.add_assoc]

universe u
variable {Inner : Type u}

def clocked (inner : Guide (Inner × Recording)) : Guide (Inner × Recording) where
  enter state node :=
    match inner.enter state node with
    | ((state, recording), .ok .skip) => ((state, recording.tick node.events.length), .ok .skip)
    | ((state, recording), answer) => ((state, recording.tick 1), answer)
  leave state node :=
    match inner.leave state node with
    | ((state, recording), answer) => ((state, recording.tick 1), answer)

end Recording

namespace Visitor

def record {State : Type} (member : Nat) (phase : Phase) (callback : Callback State Unit) :
    Callback State Recording :=
  fun state recording node =>
    let reply := callback state () node
    ⟨reply.state, recording.note ⟨recording.clock, member, phase, node, reply.answer⟩,
      reply.answer⟩

def recorded (member : Nat) (visitor : Visitor Unit) : Visitor Recording where
  name := visitor.name
  State := visitor.State
  state := visitor.state
  onEnter kind := (visitor.onEnter kind).map (record member .entering)
  onLeave kind := (visitor.onLeave kind).map (record member .leaving)

/-- The calls that a visitor receives on a tour of its own. -/
def calls (member : Nat) (visitor : Visitor Unit) (root : Node) : List Call :=
  ((Recording.clocked guide).tour (visitor.recorded member, .blank) root).1.2.calls

end Visitor

namespace Party

/-- Each visitor is recorded under its place in the order of joining. -/
def recorded (visitors : List (Visitor Unit)) : List (Visitor Recording) :=
  visitors.zipIdx.map fun entry => entry.1.recorded entry.2

/-- The calls that the members of a party receive on their tour. -/
def calls (visitors : List (Visitor Unit)) (root : Node) : List Call :=
  ((Recording.clocked guide).tour (ofVisitors (recorded visitors), .blank) root).1.2.calls

end Party

end Calls

/-! A recorded visitor is a reporter: it looks at the clock and reports its calls. -/
section Recorders

def Recording.board : Board Recording Nat Call where
  view := clock
  post recording calls := { recording with calls := recording.calls ++ calls }
  view_post _ _ := rfl
  post_nil recording := by rw [List.append_nil]
  post_append recording calls more := by rw [List.append_assoc]

theorem Recording.board_view (recording : Recording) :
    Recording.board.view recording = recording.clock := rfl

namespace Visitor

def remember {State : Type} (member : Nat) (phase : Phase) (callback : Callback State Unit) :
    Response State Nat Call :=
  fun state clock node =>
    let reply := callback state () node
    ⟨reply.state, [⟨clock, member, phase, node, reply.answer⟩], reply.answer⟩

def recorder (member : Nat) (visitor : Visitor Unit) : Reporter Nat Call where
  name := visitor.name
  State := visitor.State
  state := visitor.state
  onEnter kind := (visitor.onEnter kind).map (remember member .entering)
  onLeave kind := (visitor.onLeave kind).map (remember member .leaving)

theorem recorded_eq (member : Nat) (visitor : Visitor Unit) :
    visitor.recorded member = Recording.board.visitor (visitor.recorder member) := by
  simp only [Board.visitor, recorder, Option.map_map]
  rfl

end Visitor
end Recorders

/-! The time stamps of a tour that goes through all events. -/
section Clock
open Attendee

def stamped (clock : Nat) : List Event → List (Nat × Event)
  | [] => []
  | event :: rest => (clock, event) :: stamped (clock + 1) rest

namespace Recording
universe u
variable {Inner : Type u}

theorem clocked_enter {inner : Guide (Inner × Recording)} (never : inner.NeverSkips)
    (state : Inner × Recording) (node : Node) :
    (clocked inner).enter state node =
      let result := inner.enter state node
      ((result.1.1, result.1.2.tick 1), result.2) := by
  have unskipped := never state node
  rcases entered : inner.enter state node with ⟨after, fault | _ | _ | _⟩
  case ok.skip => exact absurd (congrArg Prod.snd entered) unskipped
  all_goals simp only [clocked, entered]

theorem clocked_never_skips {inner : Guide (Inner × Recording)} (never : inner.NeverSkips) :
    (clocked inner).NeverSkips := by
  intro state node
  rw [clocked_enter never]
  exact never state node

theorem clocked_answer {inner : Guide (Inner × Recording)} (never : inner.NeverSkips)
    (state : Inner × Recording) {event : Event} (sound : event.node.flaw? = none) :
    (clocked inner).answer state event =
      let result := inner.answer state event
      ((result.1.1, result.1.2.tick 1), result.2) := by
  rcases event with ⟨_ | _, node⟩
  · have same : node.flaw? = none := sound
    simp only [Guide.answer, same, Guide.end_after_eq, clocked_enter never]
  · simp only [Guide.answer, Guide.end_after_eq, clocked]

/-- An event at a party of recorded visitors, on the clock. -/
theorem clocked_party_answer (event : Event) (sound : event.node.flaw? = none) (depth : Nat)
    (attendees : List (Attendee Nat Call)) (recording : Recording) :
    let turn := gather depth recording.clock event attendees
    ∃ party, (clocked Party.guide).answer (board.party depth attendees, recording) event =
        ((party, (board.post recording turn.reports).tick 1), turn.ending) ∧
      (turn.ending = .finished → party = board.party (nextDepth depth event.phase) turn.who) := by
  obtain ⟨party, answered, next⟩ := board.party_answer depth attendees recording sound
  refine ⟨party, ?_, next⟩
  rw [clocked_answer Party.never_skips _ sound, answered]
  rfl

theorem clocked_follow (events : List Event) (sound : ∀ event ∈ events, event.node.flaw? = none)
    (depth : Nat) (attendees : List (Attendee Nat Call)) (recording : Recording) :
    let minutes := meet depth attendees (stamped recording.clock events)
    let result := (clocked Party.guide).follow (board.party depth attendees, recording) events
    result.1.2.calls = recording.calls ++ minutes.reports ∧ result.2 = minutes.ending := by
  induction events generalizing depth attendees recording with
  | nil => exact ⟨(List.append_nil _).symm, rfl⟩
  | cons event rest ih =>
      have later := fun event member => sound event (List.mem_cons_of_mem _ member)
      obtain ⟨party, answered, next⟩ :=
        clocked_party_answer event (sound event List.mem_cons_self) depth attendees recording
      generalize turned : gather depth recording.clock event attendees = turn at answered next
      rcases turn with ⟨who, reports, _ | _ | fault⟩
      · obtain ⟨calls, ending⟩ := ih later (nextDepth depth event.phase) who
          ((board.post recording reports).tick 1)
        rw [stamped, Guide.follow_continued rest answered, next rfl, meet_continued _ turned]
        refine ⟨calls.trans ?_, ending⟩
        rw [Minutes.reports, Minutes.reports, List.flatten_cons, ← List.append_assoc]
        rfl
      · rw [stamped, Guide.follow_ended rest answered nofun, meet_ended _ turned nofun]
        exact ⟨congrArg _ (List.append_nil _).symm, rfl⟩
      · rw [stamped, Guide.follow_ended rest answered nofun, meet_ended _ turned nofun]
        exact ⟨congrArg _ (List.append_nil _).symm, rfl⟩

end Recording
end Clock

/-! A visitor on a tour of its own is a party of one. Where it skips a node, the party goes
on without hearing from it. -/
section Alone
open Attendee

namespace Recording

/-- A party of one that is mute lets events pass and stands where it stood. -/
def StaysMute (reporter : Reporter Nat Call) (level : Nat) (events : List Event) : Prop :=
  ∀ depth recording, level ≤ depth →
    (clocked Party.guide).follow (board.party depth [⟨reporter, some level⟩], recording) events =
      ((board.party depth [⟨reporter, some level⟩], recording.tick events.length), .finished)

section Mute
variable {reporter : Reporter Nat Call} {level : Nat}

theorem StaysMute.append {events more : List Event} (first : StaysMute reporter level events)
    (second : StaysMute reporter level more) : StaysMute reporter level (events ++ more) := by
  intro depth recording below
  rw [Guide.follow_append, first depth recording below]
  dsimp only
  rw [second depth _ below, tick_tick, List.length_append]

theorem stays_mute_all (nodes : List Node)
    (each : ∀ node ∈ nodes, StaysMute reporter level node.events) :
    StaysMute reporter level (nodes.flatMap Node.events) := by
  induction nodes with
  | nil => exact fun _ _ _ => rfl
  | cons node rest ih =>
      rw [List.flatMap_cons]
      exact (each node List.mem_cons_self).append
        (ih fun other member => each other (List.mem_cons_of_mem _ member))

theorem clocked_answer_mute (phase : Phase) {node : Node} (sound : node.flaw? = none)
    (depth : Nat) (recording : Recording) (other : phase = .leaving → level ≠ depth) :
    (clocked Party.guide).answer (board.party depth [⟨reporter, some level⟩], recording)
        ⟨phase, node⟩ =
      ((board.party (nextDepth depth phase) [⟨reporter, some level⟩], recording.tick 1),
        .finished) := by
  obtain ⟨party, answered, next⟩ :=
    clocked_party_answer ⟨phase, node⟩ sound depth [⟨reporter, some level⟩] recording
  rw [gather_mute _ reporter other] at answered next
  rw [answered, next rfl, board.post_nil]

/-- Leaving the node that was skipped. -/
theorem clocked_answer_waking {node : Node} (sound : node.flaw? = none) (depth : Nat)
    (recording : Recording) :
    (clocked Party.guide).answer (board.party depth [⟨reporter, some depth⟩], recording)
        ⟨.leaving, node⟩ =
      ((board.party (depth - 1) [reporter.newcomer], recording.tick 1), .finished) := by
  obtain ⟨party, answered, next⟩ :=
    clocked_party_answer ⟨.leaving, node⟩ sound depth [⟨reporter, some depth⟩] recording
  rw [gather_waking] at answered next
  rw [answered, next rfl, board.post_nil]
  rfl

theorem stays_mute (node : Node) (intact : node.Intact) :
    StaysMute reporter level node.events := by
  induction node using Node.below_induction with
  | step node ih =>
      have here := intact.root
      have children := stays_mute_all node.children fun child member =>
        ih child member (intact.child member)
      intro depth recording below
      rw [Node.events_eq,
        Guide.follow_continued _ (clocked_answer_mute .entering here depth recording nofun),
        Guide.follow_append]
      dsimp only [nextDepth]
      rw [children (depth + 1) _ (Nat.le_succ_of_le below)]
      dsimp only
      rw [Guide.follow_continued _
        (clocked_answer_mute .leaving here (depth + 1) _ fun _ => by omega)]
      simp only [Guide.follow, tick_tick, nextDepth, Nat.add_sub_cancel, List.length_cons,
        List.length_append, List.length_nil]
      congr 3
      omega

end Mute

/-- A tour of one visitor beside the same tour of a party of one. -/
inductive Alike (depth : Nat) :
    (Visitor Recording × Recording) × Ending → (Party Recording × Recording) × Ending → Prop where
  | finished (reporter : Reporter Nat Call) (recording : Recording) :
      Alike depth ((board.visitor reporter, recording), .finished)
        ((board.party depth [reporter.newcomer], recording), .finished)
  | ended (visitor : Visitor Recording) (party : Party Recording) (recording : Recording)
      (ending : Ending) (unfinished : ending ≠ .finished) :
      Alike depth ((visitor, recording), ending) ((party, recording), ending)

def AlikeAt (node : Node) : Prop :=
  ∀ reporter depth recording,
    Alike depth
      ((clocked Visitor.guide).tourTree (board.visitor reporter, recording) node.tree)
      ((clocked Party.guide).follow (board.party depth [reporter.newcomer], recording)
        node.events)

def AlikeBelow (nodes : List Node) : Prop :=
  ∀ reporter depth recording,
    Alike depth
      ((clocked Visitor.guide).tourTrees (board.visitor reporter, recording)
        (nodes.map Node.tree))
      ((clocked Party.guide).follow (board.party depth [reporter.newcomer], recording)
        (nodes.flatMap Node.events))

theorem alike_all (nodes : List Node) (each : ∀ node ∈ nodes, AlikeAt node) :
    AlikeBelow nodes := by
  induction nodes with
  | nil => exact fun reporter _ recording => .finished reporter recording
  | cons node rest ih =>
      intro reporter depth recording
      have first := each node List.mem_cons_self reporter depth recording
      rw [List.map_cons, List.flatMap_cons, Guide.tourTrees, Guide.follow_append]
      generalize (clocked Visitor.guide).tourTree _ node.tree = alone at first ⊢
      generalize (clocked Party.guide).follow _ node.events = party at first ⊢
      cases first with
      | finished reporter recording =>
          exact ih (fun other member => each other (List.mem_cons_of_mem _ member)) _ _ _
      | ended visitor party recording ending unfinished =>
          cases ending with
          | finished => contradiction
          | stopped => exact .ended visitor party recording _ unfinished
          | fault cause => exact .ended visitor party recording _ unfinished

section Reacting
variable {reporter next : Reporter Nat Call} {recording : Recording} {node : Node}
  {reports : List Call} {answer : Except Fault Action}

theorem clocked_visitor_enter
    (reacted : reporter.react recording.clock ⟨.entering, node⟩ = (next, reports, answer))
    (unskipped : answer ≠ .ok .skip) :
    (clocked Visitor.guide).enter (board.visitor reporter, recording) node =
      ((board.visitor next, (board.post recording reports).tick 1), answer) := by
  simp only [clocked, Visitor.guide, board.visitor_enter, board_view, reacted]

theorem clocked_visitor_skip
    (reacted : reporter.react recording.clock ⟨.entering, node⟩ = (next, reports, .ok .skip)) :
    (clocked Visitor.guide).enter (board.visitor reporter, recording) node =
      ((board.visitor next, (board.post recording reports).tick node.events.length),
        .ok .skip) := by
  simp only [clocked, Visitor.guide, board.visitor_enter, board_view, reacted]

theorem clocked_visitor_leave
    (reacted : reporter.react recording.clock ⟨.leaving, node⟩ = (next, reports, answer)) :
    (clocked Visitor.guide).leave (board.visitor reporter, recording) node =
      ((board.visitor next, (board.post recording reports).tick 1), answer) := by
  simp only [clocked, Visitor.guide, board.visitor_leave, board_view, reacted]

/-- An event at a party of one that hears. -/
theorem clocked_answer_heard {phase : Phase} (sound : node.flaw? = none) (depth : Nat)
    (reacted : reporter.react recording.clock ⟨phase, node⟩ = (next, reports, answer)) :
    ∃ party, (clocked Party.guide).answer (board.party depth [reporter.newcomer], recording)
          ⟨phase, node⟩ =
        ((party, (board.post recording reports).tick 1), .ofAnswer answer) ∧
      (Ending.ofAnswer answer = .finished → party = board.party (nextDepth depth phase)
        [⟨next, skipLevel (nodeDepth depth phase) phase answer⟩]) := by
  obtain ⟨party, answered, stands⟩ :=
    clocked_party_answer ⟨phase, node⟩ sound depth [reporter.newcomer] recording
  have heard : ¬ reporter.newcomer.skippedAt.isSome = true := nofun
  rw [gather_single, turn, speak_heard _ _ _ heard] at answered stands
  simp only [Reporter.newcomer, reacted] at answered stands
  refine ⟨party, answered, fun finished => (stands finished).trans ?_⟩
  cases phase <;> rfl

end Reacting

/-- Both leave a node when what is below it has not ended the tour. -/
theorem alike_leaving {node : Node} (here : node.flaw? = none) (depth : Nat)
    (reporter : Reporter Nat Call) (recording : Recording) :
    Alike depth
      (Guide.endAfter ((clocked Visitor.guide).leave (board.visitor reporter, recording) node))
      ((clocked Party.guide).follow (board.party (depth + 1) [reporter.newcomer], recording)
        [⟨.leaving, node⟩]) := by
  rcases reacted : reporter.react recording.clock ⟨.leaving, node⟩ with ⟨next, reports, answer⟩
  obtain ⟨party, answered, stands⟩ := clocked_answer_heard here (depth + 1) reacted
  rw [clocked_visitor_leave reacted, Guide.end_after_eq]
  by_cases ended : Ending.ofAnswer answer = .finished
  · rw [ended] at answered ⊢
    rw [Guide.follow_continued _ answered, stands ended]
    exact .finished _ _
  · rw [Guide.follow_ended _ answered ended]
    exact .ended _ _ _ _ ended

/-- A party that has entered a node which its member skips hears nothing until it leaves
the node. -/
theorem follow_skipped (reporter : Reporter Nat Call) {node : Node} (intact : node.Intact)
    (depth : Nat) (recording : Recording) :
    (clocked Party.guide).follow (board.party (depth + 1) [⟨reporter, some (depth + 1)⟩],
        recording.tick 1) (node.children.flatMap Node.events ++ [⟨.leaving, node⟩]) =
      ((board.party depth [reporter.newcomer], recording.tick node.events.length), .finished) := by
  have below : StaysMute reporter (depth + 1) (node.children.flatMap Node.events) :=
    stays_mute_all node.children fun child member => stays_mute child (intact.child member)
  have time : node.events.length = 1 + (node.children.flatMap Node.events).length + 1 := by
    rw [Node.events_eq, List.length_cons, List.length_append, List.length_singleton]
    omega
  rw [Guide.follow_append, below (depth + 1) _ (Nat.le_refl _)]
  dsimp only
  rw [Guide.follow_continued _ (clocked_answer_waking intact.root (depth + 1) _), tick_tick,
    tick_tick, time]
  rfl

theorem alike (node : Node) (intact : node.Intact) : AlikeAt node := by
  induction node using Node.below_induction with
  | step node ih =>
      have here := intact.root
      have children := alike_all node.children fun child member =>
        ih child member (intact.child member)
      intro reporter depth recording
      rw [Node.tree_eq, Node.events_eq, Guide.tourTree, here]
      rcases reacted : reporter.react recording.clock ⟨.entering, node⟩ with
        ⟨next, reports, answer⟩
      obtain ⟨party, answered, stands⟩ := clocked_answer_heard here depth reacted
      -- The answers: a fault, and to proceed, skip or stop.
      rcases answer with fault | _ | _ | _
      · rw [clocked_visitor_enter reacted nofun, Guide.follow_ended _ answered nofun]
        exact .ended _ _ _ _ nofun
      · rw [clocked_visitor_enter reacted nofun, Guide.follow_continued _ answered, stands rfl,
          Guide.follow_append]
        have below := children next (depth + 1) ((board.post recording reports).tick 1)
        dsimp only [nextDepth, skipLevel]
        rw [← Reporter.newcomer]
        generalize (clocked Visitor.guide).tourTrees _ (node.children.map Node.tree) = alone
          at below ⊢
        generalize (clocked Party.guide).follow _ (node.children.flatMap Node.events) = party
          at below ⊢
        cases below with
        | finished reporter recording => exact alike_leaving here depth reporter recording
        | ended visitor party recording ending unfinished =>
            cases ending with
            | finished => contradiction
            | stopped => exact .ended _ _ _ _ unfinished
            | fault cause => exact .ended _ _ _ _ unfinished
      · rw [clocked_visitor_skip reacted, Guide.follow_continued _ answered, stands rfl]
        dsimp only [nextDepth, nodeDepth, skipLevel]
        rw [follow_skipped next intact]
        exact .finished _ _
      · rw [clocked_visitor_enter reacted nofun, Guide.follow_ended _ answered nofun]
        exact .ended _ _ _ _ nofun

end Recording
end Alone

section Transcripts
open Attendee

theorem Visitor.calls_eq (member : Nat) (visitor : Visitor Unit) {root : Node}
    (intact : root.Intact) :
    visitor.calls member root =
      (meet 0 [(visitor.recorder member).newcomer] (stamped 0 root.events)).reports := by
  have alike := Recording.alike root intact (visitor.recorder member) 0 .blank
  obtain ⟨calls, _⟩ := Recording.clocked_follow root.events intact 0
    [(visitor.recorder member).newcomer] .blank
  rw [Visitor.calls, recorded_eq, Guide.tour]
  generalize (Recording.clocked Visitor.guide).tourTree _ root.tree = alone at alike ⊢
  generalize (Recording.clocked Party.guide).follow _ root.events = party at alike calls
  cases alike with
  | finished reporter recording => exact calls
  | ended visitor party recording ending unfinished => exact calls

def Party.lineup (entries : List (Visitor Unit × Nat)) : List (Attendee Nat Call) :=
  entries.map fun entry => (entry.1.recorder entry.2).newcomer

theorem Party.calls_eq (visitors : List (Visitor Unit)) {root : Node} (intact : root.Intact) :
    Party.calls visitors root =
      (meet 0 (lineup visitors.zipIdx) (stamped 0 root.events)).reports := by
  have joined : ofVisitors (recorded visitors) =
      Recording.board.party 0 (lineup visitors.zipIdx) := by
    have reporters := Recording.board.party_of_visitors
      (visitors.zipIdx.map fun entry => entry.1.recorder entry.2)
    simp only [List.map_map, Function.comp_def, ← Visitor.recorded_eq] at reporters
    exact reporters
  obtain ⟨calls, _⟩ := Recording.clocked_follow root.events intact 0
    (lineup visitors.zipIdx) .blank
  rw [Party.calls, Guide.tour_eq_follow _ (Recording.clocked_never_skips never_skips), joined]
  exact calls

end Transcripts
end GraphQL
