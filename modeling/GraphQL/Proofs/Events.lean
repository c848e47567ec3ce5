import GraphQL.Tour.Basic

/-! A tour as a sequence of events: each node is entered, what is below it has its events,
and then the node is left. A guide that never skips goes through all of them in order, so
its tour is a loop over a list. -/
namespace GraphQL

section Sequences

inductive Phase where
  | entering
  | leaving
deriving DecidableEq

structure Event where
  phase : Phase
  node : Node

namespace Tree

mutual

def events : Tree Node → List Event
  | .node root branches => ⟨.entering, root⟩ :: (eventsAll branches ++ [⟨.leaving, root⟩])

def eventsAll : List (Tree Node) → List Event
  | [] => []
  | tree :: rest => tree.events ++ eventsAll rest

end

theorem events_all_eq (trees : List (Tree Node)) : eventsAll trees = trees.flatMap events := by
  induction trees with
  | nil => rfl
  | cons tree rest ih => rw [eventsAll, ih, List.flatMap_cons]

end Tree

namespace Node

def events (node : Node) : List Event := node.tree.events

theorem events_eq (node : Node) :
    node.events = ⟨.entering, node⟩ :: (node.children.flatMap events ++ [⟨.leaving, node⟩]) := by
  rw [events, tree_eq, Tree.events, Tree.events_all_eq, List.flatMap_map]
  rfl

/-- What holds of a node as soon as it holds of its children holds of all nodes. -/
theorem below_induction {motive : Node → Prop}
    (step : ∀ node, (∀ child ∈ node.children, motive child) → motive node) (node : Node) :
    motive node :=
  step node fun child _ => below_induction step child
termination_by sizeOf node
decreasing_by exact child_size ‹_›

theorem mem_events {node : Node} {event : Event} :
    event ∈ node.events ↔ event = ⟨.entering, node⟩ ∨
      (∃ child ∈ node.children, event ∈ child.events) ∨ event = ⟨.leaving, node⟩ := by
  rw [events_eq]
  simp only [List.mem_cons, List.mem_append, List.mem_flatMap, List.not_mem_nil, or_false]

/-- A condition that every node hands on to its children holds at all events. -/
theorem all_events {Holds : Node → Prop}
    (inherited : ∀ node, Holds node → ∀ child ∈ node.children, Holds child) (node : Node)
    (root : Holds node) : ∀ event ∈ node.events, Holds event.node := by
  induction node using below_induction with
  | step node ih =>
      intro event member
      rcases mem_events.mp member with rfl | ⟨child, below, inside⟩ | rfl
      · exact root
      · exact ih child below (inherited node root child below) event inside
      · exact root

end Node

end Sequences

/-! The walker looks at the structure of each node that it comes to. -/
section Soundness

/-- No node at or below a node is malformed. -/
def Node.Sound (node : Node) : Prop := ∀ entry ∈ node.listing, entry.2.flaw? = none

namespace Tree

mutual

theorem event_listed (depth : Nat) : ∀ (tree : Tree Node) (event : Event), event ∈ tree.events →
    ∃ entry ∈ tree.listing depth, entry.2 = event.node
  | .node root branches, event, member => by
      simp only [events, List.mem_cons, List.mem_append, List.not_mem_nil, or_false] at member
      simp only [listing, List.mem_cons]
      rcases member with rfl | below | rfl
      · exact ⟨_, Or.inl rfl, rfl⟩
      · obtain ⟨entry, listed, same⟩ := events_listed (depth + 1) branches event below
        exact ⟨entry, Or.inr listed, same⟩
      · exact ⟨_, Or.inl rfl, rfl⟩

theorem events_listed (depth : Nat) : ∀ (trees : List (Tree Node)) (event : Event),
    event ∈ eventsAll trees → ∃ entry ∈ listingAll depth trees, entry.2 = event.node
  | [], _, member => by simp [eventsAll] at member
  | tree :: rest, event, member => by
      simp only [listingAll, List.mem_append]
      rcases List.mem_append.mp member with first | later
      · obtain ⟨entry, listed, same⟩ := event_listed depth tree event first
        exact ⟨entry, Or.inl listed, same⟩
      · obtain ⟨entry, listed, same⟩ := events_listed depth rest event later
        exact ⟨entry, Or.inr listed, same⟩

end

end Tree

namespace Node

/-- The same, said of the events of a tour. -/
def Intact (node : Node) : Prop := ∀ event ∈ node.events, event.node.flaw? = none

variable {node : Node}

theorem Sound.intact (sound : node.Sound) : node.Intact := by
  intro event member
  obtain ⟨entry, listed, same⟩ := Tree.event_listed 0 node.tree event member
  exact same ▸ sound entry listed

theorem Intact.root (intact : node.Intact) : node.flaw? = none :=
  intact ⟨.entering, node⟩ (mem_events.mpr (.inl rfl))

theorem Intact.child (intact : node.Intact) {child : Node} (member : child ∈ node.children) :
    child.Intact :=
  fun event inside => intact event (mem_events.mpr (.inr (.inl ⟨child, member, inside⟩)))

theorem Intact.of_children (root : node.flaw? = none)
    (children : ∀ child ∈ node.children, child.Intact) : node.Intact := by
  intro event member
  rcases mem_events.mp member with rfl | ⟨child, below, inside⟩ | rfl
  · exact root
  · exact children child below event inside
  · exact root

end Node

end Soundness

section Following
universe u
variable {State : Type u}

def Ending.ofAnswer : Except Fault Action → Ending
  | .error cause => .fault cause
  | .ok .stop => .stopped
  | .ok _ => .finished

namespace Guide

theorem end_after_eq (result : State × Except Fault Action) :
    endAfter result = (result.1, .ofAnswer result.2) := by
  rcases result with ⟨state, _ | _ | _ | _⟩ <;> rfl

/-- What one event does. A node that is entered is looked at before the guide is asked. -/
def answer (guide : Guide State) (state : State) : Event → State × Ending
  | ⟨.entering, node⟩ =>
      match node.flaw? with
      | some flaw => (state, .fault (.malformed node.position flaw))
      | none => endAfter (guide.enter state node)
  | ⟨.leaving, node⟩ => endAfter (guide.leave state node)

def follow (guide : Guide State) (state : State) : List Event → State × Ending
  | [] => (state, .finished)
  | event :: rest =>
      match guide.answer state event with
      | (state, .finished) => guide.follow state rest
      | ended => ended

section Steps
variable {guide : Guide State} {state next : State} {event : Event} {ending : Ending}

theorem follow_continued (rest : List Event)
    (answered : guide.answer state event = (next, .finished)) :
    guide.follow state (event :: rest) = guide.follow next rest := by
  simp only [follow, answered]

theorem follow_ended (rest : List Event) (answered : guide.answer state event = (next, ending))
    (ended : ending ≠ .finished) : guide.follow state (event :: rest) = (next, ending) := by
  rw [follow, answered]
  split
  · next same => exact absurd (congrArg Prod.snd same) ended
  · rfl

end Steps

theorem follow_append (guide : Guide State) (state : State) (events more : List Event) :
    guide.follow state (events ++ more) =
      match guide.follow state events with
      | (state, .finished) => guide.follow state more
      | ended => ended := by
  induction events generalizing state with
  | nil => rfl
  | cons event rest ih =>
      simp only [List.cons_append, follow]
      rcases guide.answer state event with ⟨next, _ | _ | _⟩
      · exact ih next
      · rfl
      · rfl

def NeverSkips (guide : Guide State) : Prop :=
  ∀ state node, (guide.enter state node).2 ≠ .ok .skip

mutual

theorem tour_tree_eq_follow (guide : Guide State) (never : guide.NeverSkips) (state : State) :
    ∀ tree, guide.tourTree state tree = guide.follow state tree.events
  | .node node branches => by
      rw [Tree.events, tourTree, follow, answer]
      cases node.flaw? with
      | some flaw => rfl
      | none =>
          have unskipped := never state node
          dsimp only
          rcases entered : guide.enter state node with ⟨next, fault | _ | _ | _⟩
          · rfl
          · have below := tour_trees_eq_follow guide never next branches
            simp only [endAfter, follow_append, ← below]
            rcases guide.tourTrees next branches with ⟨last, _ | _ | _⟩
            · simp only [follow, answer]
              rcases guide.leave last node with ⟨_, _ | _ | _ | _⟩ <;> rfl
            · rfl
            · rfl
          · exact absurd (congrArg Prod.snd entered) unskipped
          · rfl

theorem tour_trees_eq_follow (guide : Guide State) (never : guide.NeverSkips) (state : State) :
    ∀ trees, guide.tourTrees state trees = guide.follow state (Tree.eventsAll trees)
  | [] => rfl
  | tree :: rest => by
      rw [Tree.eventsAll, tourTrees, follow_append, ← tour_tree_eq_follow guide never]
      rcases guide.tourTree state tree with ⟨next, _ | _ | _⟩
      · exact tour_trees_eq_follow guide never next rest
      · rfl
      · rfl

end

theorem tour_eq_follow (guide : Guide State) (never : guide.NeverSkips) (state : State)
    (root : Node) : guide.tour state root = guide.follow state root.events :=
  tour_tree_eq_follow guide never state root.tree

end Guide
end Following

/-! A guide that keeps something beside the state of another guide, and otherwise answers
as that guide does, takes the same tours. -/
section Carrying
universe u v
variable {State : Type u} {Inner : Type v}

def Guide.Carries (outer : Guide State) (inner : Guide Inner) (state : State → Inner) : Prop :=
  (∀ before node, inner.enter (state before) node =
      (state (outer.enter before node).1, (outer.enter before node).2)) ∧
    ∀ before node, inner.leave (state before) node =
      (state (outer.leave before node).1, (outer.leave before node).2)

namespace Guide
variable {outer : Guide State} {inner : Guide Inner} {state : State → Inner}

mutual

theorem Carries.tour_tree (carries : outer.Carries inner state) (before : State) :
    ∀ tree, inner.tourTree (state before) tree =
      (state (outer.tourTree before tree).1, (outer.tourTree before tree).2)
  | .node node branches => by
      rw [tourTree, tourTree]
      cases node.flaw? with
      | some flaw => rfl
      | none =>
          dsimp only
          rw [carries.1]
          rcases outer.enter before node with ⟨next, _ | _ | _ | _⟩
          · rfl
          · dsimp only
            rw [carries.tour_trees]
            rcases outer.tourTrees next branches with ⟨last, _ | _ | _⟩
            · simp only [end_after_eq, carries.2]
            · rfl
            · rfl
          · rfl
          · rfl

theorem Carries.tour_trees (carries : outer.Carries inner state) (before : State) :
    ∀ trees, inner.tourTrees (state before) trees =
      (state (outer.tourTrees before trees).1, (outer.tourTrees before trees).2)
  | [] => rfl
  | tree :: rest => by
      rw [tourTrees, tourTrees, carries.tour_tree]
      rcases outer.tourTree before tree with ⟨next, _ | _ | _⟩
      · exact carries.tour_trees next rest
      · rfl
      · rfl

end

end Guide
end Carrying
end GraphQL
