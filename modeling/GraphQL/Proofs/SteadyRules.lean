import GraphQL.Proofs.Impartiality
import GraphQL.Proofs.ScopeStacks

/-! Rules that carry nothing from one node to the next. What such a rule reports on a list
of nodes is what it reports on each of them, since it comes out of a node as it went in:
it has learned nothing, it is heard again if it has skipped anything, and nothing of the
node is left in scope. -/
namespace GraphQL

open Inspection Attendee

/-! While a node is skipped nothing is reported, whatever comes after it. -/
section Hush
variable {reporter : Reporter View Finding} {level : Nat}

def Hushed (reporter : Reporter View Finding) (level : Nat) (events : List Event) : Prop :=
  ∀ depth (view : View) more, level ≤ depth →
    (meet depth [⟨reporter, some level⟩] (view.along (events ++ more))).reports =
      (meet depth [⟨reporter, some level⟩] ((view.passed events).along more)).reports

theorem hushed_nodes (nodes : List Node)
    (each : ∀ node ∈ nodes, Hushed reporter level node.events) :
    Hushed reporter level (nodes.flatMap Node.events) := by
  induction nodes with
  | nil => exact fun _ _ _ _ => rfl
  | cons node rest ih =>
      intro depth view more below
      have first := each node List.mem_cons_self
      have later := ih fun other member => each other (List.mem_cons_of_mem _ member)
      rw [List.flatMap_cons, List.append_assoc, first depth view _ below, later depth _ _ below,
        View.passed_append]

theorem reports_continued {depth : Nat} {view : View} {event : Event}
    {attendees who : List (Attendee View Finding)} {reports : List Finding} (more : List Event)
    (turned : gather depth (view.during event) event attendees = ⟨who, reports, .finished⟩) :
    (meet depth attendees (view.along (event :: more))).reports =
      reports ++ (meet (nextDepth depth event.phase) who
        (((view.during event).beyond event).along more)).reports := by
  rw [View.along, meet_continued _ turned]
  rfl

theorem hushed_node (node : Node) : Hushed reporter level node.events := by
  induction node using Node.below_induction with
  | step node ih =>
      intro depth view more below
      -- The node is not the one that was skipped, so leaving it wakes nobody.
      have apart : level ≠ depth + 1 := by omega
      rw [Node.events_eq, List.cons_append, List.append_assoc, View.passed, View.passed_append]
      have entered : gather depth (view.during ⟨.entering, node⟩) ⟨.entering, node⟩
          [⟨reporter, some level⟩] = _ :=
        gather_mute _ reporter (by rintro ⟨⟩)
      apply (reports_continued _ entered).trans
      apply (hushed_nodes node.children ih (depth + 1) _ _ (Nat.le_succ_of_le below)).trans
      exact reports_continued more (gather_mute _ reporter fun _ => apart)

end Hush

section Steadiness
variable {reporter : Reporter View Finding} {events : List Event}

namespace Reporter

/-- What a reporter that starts to listen reports in the course of some events. -/
def solo (reporter : Reporter View Finding) (depth : Nat) (view : View) (events : List Event) :
    List Finding :=
  (meet depth [reporter.newcomer] (view.along events)).reports

/-- At these events the reporter stays as it is and ends nothing. -/
def Steady (reporter : Reporter View Finding) (events : List Event) : Prop :=
  ∀ event ∈ events, ∀ view, ∃ reports action,
    reporter.react view event = (reporter, reports, .ok action) ∧ action ≠ .stop

/-- The reports on these events are the same whatever comes after them, and are no part in
what is reported then. -/
def Settles (reporter : Reporter View Finding) (events : List Event) : Prop :=
  ∀ depth view more, reporter.solo depth view (events ++ more) =
    reporter.solo depth view events ++ reporter.solo depth (view.passed events) more

theorem Steady.below {node child : Node} (steady : reporter.Steady node.events)
    (member : child ∈ node.children) : reporter.Steady child.events :=
  fun event inside => steady event (Node.mem_events.mpr (.inr (.inl ⟨child, member, inside⟩)))

section Steps
variable {next : Reporter View Finding} {view : View} {event : Event} {reports : List Finding}
  {action : Action}

/-- Who is heard and goes on is muted at most, and only by entering a node. -/
theorem gather_going (reacted : reporter.react view event = (next, reports, .ok action))
    (goes : action ≠ .stop) (depth : Nat) :
    gather depth view event [reporter.newcomer] =
      ⟨[⟨next, skipLevel (depth + 1) event.phase (.ok action)⟩], reports, .finished⟩ := by
  have heard : ¬ reporter.newcomer.skippedAt.isSome = true := nofun
  have finished : Ending.ofAnswer (.ok action) = .finished := by
    cases action with
    | proceed => rfl
    | skip => rfl
    | stop => exact absurd rfl goes
  rw [gather_single, turn, speak_heard _ _ _ heard]
  simp only [newcomer, reacted, finished]
  rcases event with ⟨_ | _, node⟩ <;> rfl

theorem solo_proceeding (reacted : reporter.react (view.during event) event =
    (next, reports, .ok .proceed)) (depth : Nat) (more : List Event) :
    reporter.solo depth view (event :: more) =
      reports ++ next.solo (nextDepth depth event.phase)
        ((view.during event).beyond event) more := by
  apply reports_continued more
  rw [gather_going reacted (by decide)]
  rcases event with ⟨_ | _, node⟩ <;> rfl

theorem solo_leaving {node : Node} (reacted : reporter.react view ⟨.leaving, node⟩ =
    (next, reports, .ok action)) (goes : action ≠ .stop) (depth : Nat) (more : List Event) :
    reporter.solo (depth + 1) view (⟨.leaving, node⟩ :: more) =
      reports ++ next.solo depth (view.beyond ⟨.leaving, node⟩) more :=
  reports_continued more (gather_going reacted goes (depth + 1))

/-- A node that is skipped is left in silence, and the reporter listens again. -/
theorem solo_skipping {node : Node} (reacted : reporter.react (view.during ⟨.entering, node⟩)
    ⟨.entering, node⟩ = (next, reports, .ok .skip)) (depth : Nat) (more : List Event) :
    reporter.solo depth view (node.events ++ more) =
      reports ++ next.solo depth (view.passed node.events) more := by
  have entered := gather_going reacted (by decide) depth
  have below : Hushed next (depth + 1) (node.children.flatMap Node.events) :=
    hushed_nodes node.children fun child _ => hushed_node child
  rw [Node.events_eq, List.cons_append, List.append_assoc, View.passed, View.passed_append]
  apply (reports_continued _ entered).trans
  apply congrArg (reports ++ ·)
  apply (below (depth + 1) _ _ (Nat.le_refl _)).trans
  exact reports_continued more (gather_waking _ _ _ _)

end Steps

/-- Heard or not, a steady reporter goes on as the one that it is. -/
theorem gather_steady {view : View} {event : Event} (steady : ∃ reports action,
      reporter.react view event = (reporter, reports, .ok action) ∧ action ≠ .stop)
    (depth : Nat) (skippedAt : Option Nat) : ∃ next reports,
      gather depth view event [⟨reporter, skippedAt⟩] =
          ⟨[⟨reporter, next⟩], reports, .finished⟩ ∧
        reports ⊆ (reporter.react view event).2.1 := by
  cases skippedAt with
  | none =>
      obtain ⟨reports, action, reacted, goes⟩ := steady
      refine ⟨_, reports, gather_going reacted goes depth, ?_⟩
      rw [reacted]
      exact List.Subset.refl _
  | some level =>
      by_cases woken : event.phase = .leaving ∧ level = depth
      · obtain ⟨phase, node⟩ := event
        obtain ⟨rfl, rfl⟩ := woken
        exact ⟨none, [], gather_waking level view node reporter, List.nil_subset _⟩
      · have other : event.phase = .leaving → level ≠ depth :=
          fun leaving same => woken ⟨leaving, same⟩
        exact ⟨some level, [], gather_mute view reporter other, List.nil_subset _⟩

theorem Settles.of_found (each : ∀ depth view, ∃ found, ∀ more,
    reporter.solo depth view (events ++ more) =
      found ++ reporter.solo depth (view.passed events) more) : reporter.Settles events := by
  intro depth view more
  obtain ⟨found, whole⟩ := each depth view
  have alone : reporter.solo depth view events = found := by
    simpa [solo, View.along, meet, Minutes.reports] using whole []
  rw [whole, alone]

theorem Settles.append {more : List Event} (first : reporter.Settles events)
    (later : reporter.Settles more) : reporter.Settles (events ++ more) := by
  intro depth view rest
  rw [List.append_assoc, first, later, first depth view more, View.passed_append,
    List.append_assoc]

theorem settles_nodes (nodes : List Node) (each : ∀ node ∈ nodes, reporter.Settles node.events) :
    reporter.Settles (nodes.flatMap Node.events) := by
  induction nodes with
  | nil => exact fun _ _ _ => rfl
  | cons node rest ih =>
      rw [List.flatMap_cons]
      exact (each node List.mem_cons_self).append
        (ih fun other member => each other (List.mem_cons_of_mem _ member))

theorem settles_node (node : Node) (steady : reporter.Steady node.events) :
    reporter.Settles node.events := by
  induction node using Node.below_induction with
  | step node ih =>
      apply Settles.of_found
      intro depth view
      have below := settles_nodes node.children fun child member =>
        ih child member (steady.below member)
      obtain ⟨reports, action, entered, goes⟩ :=
        steady _ (Node.mem_events.mpr (.inl rfl)) (view.during ⟨.entering, node⟩)
      cases action with
      | stop => exact absurd rfl goes
      | skip => exact ⟨reports, solo_skipping entered depth⟩
      | proceed =>
          -- The reporter hears of the children, and then of the node again.
          let inside := view.during ⟨.entering, node⟩
          let behind := inside.passed (node.children.flatMap Node.events)
          obtain ⟨last, answer, left, goes⟩ :=
            steady _ (Node.mem_events.mpr (.inr (.inr rfl))) behind
          refine ⟨reports ++ reporter.solo (depth + 1) inside
            (node.children.flatMap Node.events) ++ last, fun more => ?_⟩
          rw [Node.events_eq, List.cons_append, List.append_assoc, solo_proceeding entered,
            View.passed, View.passed_append, List.append_assoc, List.append_assoc]
          apply congrArg (reports ++ ·)
          apply (below (depth + 1) inside _).trans
          exact congrArg (_ ++ ·) (solo_leaving left goes depth more)

/-- The reporter takes no notice of these events. -/
def Deaf (reporter : Reporter View Finding) (events : List Event) : Prop :=
  ∀ event ∈ events, ∀ view, reporter.react view event = (reporter, [], .ok .proceed)

theorem Deaf.steady (deaf : reporter.Deaf events) : reporter.Steady events :=
  fun event member view => ⟨[], .proceed, deaf event member view, by decide⟩

theorem Deaf.solo_nil (deaf : reporter.Deaf events) (depth : Nat) (view : View) :
    reporter.solo depth view events = [] := by
  induction events generalizing depth view with
  | nil => rfl
  | cons event rest ih =>
      rw [solo_proceeding (deaf event List.mem_cons_self _), List.nil_append]
      exact ih (fun other member => deaf other (List.mem_cons_of_mem _ member)) _ _

theorem Deaf.solo_node {node : Node} (deaf : reporter.Deaf node.events) (depth : Nat)
    (view : View) (more : List Event) : reporter.solo depth view (node.events ++ more) =
      reporter.solo depth (view.passed node.events) more := by
  rw [settles_node node deaf.steady, deaf.solo_nil, List.nil_append]

end Reporter
end Steadiness
end GraphQL
