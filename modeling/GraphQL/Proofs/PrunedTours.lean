import GraphQL.Proofs.DocumentNodes

/-! Which calls a tour makes of its guide. The pruned tour is the tour of a guide that nobody
can hold up: what a node is like and what the guide answers makes no difference to it, except
that the answer to skip leaves out what is below a node and the leaving of it. The tour
itself is the pruned tour, cut where it is held up for the first time. -/
namespace GraphQL

universe u
variable {State : Type u}

section Calls

/-- A call of a guide, and how the guide answered it. -/
structure Exchange where
  event : Event
  answer : Except Fault Action

namespace Exchange

/-- What is wrong with the node of a call. Nodes are looked at before they are entered. -/
def flaw? (call : Exchange) : Option Flaw :=
  match call.event.phase with
  | .entering => call.event.node.flaw?
  | .leaving => none

def Goes (call : Exchange) : Prop :=
  call.flaw? = none ∧ Ending.ofAnswer call.answer = .finished

end Exchange

namespace Guide

section Logs

def logged (guide : Guide State) : Guide (State × List Exchange) where
  enter state node :=
    let result := guide.enter state.1 node
    ((result.1, state.2 ++ [⟨⟨.entering, node⟩, result.2⟩]), result.2)
  leave state node :=
    let result := guide.leave state.1 node
    ((result.1, state.2 ++ [⟨⟨.leaving, node⟩, result.2⟩]), result.2)

def calls (guide : Guide State) (state : State) (root : Node) : List Exchange :=
  (guide.logged.tour (state, []) root).1.2

theorem logged_carries (guide : Guide State) : guide.logged.Carries guide Prod.fst :=
  ⟨fun _ _ => rfl, fun _ _ => rfl⟩

theorem logged_tour (guide : Guide State) (state : State) (root : Node) :
    guide.logged.tour (state, []) root =
      (((guide.tour state root).1, guide.calls state root), (guide.tour state root).2) := by
  have carried := guide.logged_carries.tour_tree (state, []) root.tree
  rw [tour, tour, calls, tour, carried]

end Logs

section Pruned

mutual

/-- The calls of a tour that nothing holds up, and the state that the guide is in then. -/
def prunedTree (guide : Guide State) (state : State) : Tree Node → State × List Exchange
  | .node node branches =>
      let entered := guide.enter state node
      match entered.2 with
      | .ok .skip => (entered.1, [⟨⟨.entering, node⟩, .ok .skip⟩])
      | answer =>
          let below := guide.prunedTrees entered.1 branches
          let left := guide.leave below.1 node
          (left.1, ⟨⟨.entering, node⟩, answer⟩ :: (below.2 ++ [⟨⟨.leaving, node⟩, left.2⟩]))

def prunedTrees (guide : Guide State) (state : State) : List (Tree Node) → State × List Exchange
  | [] => (state, [])
  | tree :: rest =>
      let first := guide.prunedTree state tree
      let later := guide.prunedTrees first.1 rest
      (later.1, first.2 ++ later.2)

end

def pruned (guide : Guide State) (state : State) (root : Node) : List Exchange :=
  (guide.prunedTree state root.tree).2

variable {guide : Guide State} {state next : State} {node : Node} {branches : List (Tree Node)}

theorem pruned_skipped (entered : guide.enter state node = (next, .ok .skip)) :
    guide.prunedTree state (.node node branches) =
      (next, [⟨⟨.entering, node⟩, .ok .skip⟩]) := by
  simp only [prunedTree, entered]

theorem pruned_entered {answer : Except Fault Action}
    (entered : guide.enter state node = (next, answer)) (unskipped : answer ≠ .ok .skip) :
    guide.prunedTree state (.node node branches) =
      let below := guide.prunedTrees next branches
      let left := guide.leave below.1 node
      (left.1, ⟨⟨.entering, node⟩, answer⟩ :: (below.2 ++ [⟨⟨.leaving, node⟩, left.2⟩])) := by
  rcases answer with _ | _ | _ | _
  · simp only [prunedTree, entered]
  · simp only [prunedTree, entered]
  · exact absurd rfl unskipped
  · simp only [prunedTree, entered]

/-- Whatever is answered, the tour of a node starts by entering it. -/
theorem pruned_starts (guide : Guide State) (state : State) (node : Node)
    (branches : List (Tree Node)) : ∃ answer rest,
      (guide.prunedTree state (.node node branches)).2 = ⟨⟨.entering, node⟩, answer⟩ :: rest := by
  rcases entered : guide.enter state node with ⟨next, answer⟩
  by_cases skipped : answer = .ok .skip
  · subst skipped
    rw [pruned_skipped entered]
    exact ⟨_, _, rfl⟩
  · rw [pruned_entered entered skipped]
    exact ⟨_, _, rfl⟩

end Pruned

/-- Calls are cut at the first one that does not go: right behind it if it is the answer that
ends the tour, and right before it if the node is not as it should be. -/
inductive Cut : List Exchange → List Exchange → Ending → Prop where
  | whole {calls : List Exchange} (goes : ∀ call ∈ calls, call.Goes) : Cut calls calls .finished
  | behind {before rest : List Exchange} {last : Exchange} (goes : ∀ call ∈ before, call.Goes)
      (flawless : last.flaw? = none) (ends : Ending.ofAnswer last.answer ≠ .finished) :
      Cut (before ++ last :: rest) (before ++ [last]) (.ofAnswer last.answer)
  | ahead {before rest : List Exchange} {next : Exchange} {flaw : Flaw}
      (goes : ∀ call ∈ before, call.Goes) (flawed : next.flaw? = some flaw) :
      Cut (before ++ next :: rest) before (.fault (.malformed next.event.node.position flaw))

namespace Cut
variable {calls made rest : List Exchange} {ending : Ending}

theorem after (cut : Cut calls made ending) {before : List Exchange}
    (goes : ∀ call ∈ before, call.Goes) : Cut (before ++ calls) (before ++ made) ending := by
  cases cut with
  | whole later => exact .whole (List.forall_mem_append.mpr ⟨goes, later⟩)
  | behind later flawless ends =>
      rw [← List.append_assoc, ← List.append_assoc]
      exact .behind (List.forall_mem_append.mpr ⟨goes, later⟩) flawless ends
  | ahead later flawed =>
      rw [← List.append_assoc]
      exact .ahead (List.forall_mem_append.mpr ⟨goes, later⟩) flawed

theorem extend (cut : Cut calls made ending) (ended : ending ≠ .finished)
    (rest : List Exchange) : Cut (calls ++ rest) made ending := by
  cases cut with
  | whole => exact absurd rfl ended
  | behind goes flawless ends =>
      rw [List.append_assoc]
      exact .behind goes flawless ends
  | ahead goes flawed =>
      rw [List.append_assoc]
      exact .ahead goes flawed

theorem of_finished (cut : Cut calls made ending) (finished : ending = .finished) :
    made = calls ∧ ∀ call ∈ calls, call.Goes := by
  cases cut with
  | whole goes => exact ⟨rfl, goes⟩
  | behind _ _ ends => exact absurd finished ends
  | ahead => cases finished

theorem finished_iff (cut : Cut calls made ending) :
    ending = .finished ↔ ∀ call ∈ calls, call.Goes := by
  refine ⟨fun finished => (cut.of_finished finished).2, fun goes => ?_⟩
  cases cut with
  | whole => rfl
  | behind _ _ ends =>
      exact absurd (goes _ (List.mem_append_right _ List.mem_cons_self)).2 ends
  | ahead _ flawed =>
      have flawless := (goes _ (List.mem_append_right _ List.mem_cons_self)).1
      cases flawed.symm.trans flawless

end Cut

/-! What is logged while a tree is toured is the pruned tour of the tree as far as it goes,
and if it goes to the end the guide is in the state that it is in after the pruned tour. -/
section Following

structure Follows (pruned : State × List Exchange) (log : List Exchange)
    (result : (State × List Exchange) × Ending) : Prop where
  cut : ∃ made, result.1.2 = log ++ made ∧ Cut pruned.2 made result.2
  state : result.2 = .finished → result.1.1 = pruned.1

variable {pruned : State × List Exchange} {log : List Exchange}
  {result : (State × List Exchange) × Ending}

theorem Follows.held (follows : Follows pruned log result) (held : result.2 ≠ .finished)
    (state : State) (rest : List Exchange) : Follows (state, pruned.2 ++ rest) log result := by
  obtain ⟨made, logged, cut⟩ := follows.cut
  exact ⟨⟨made, logged, cut.extend held rest⟩, fun finished => absurd finished held⟩

/-- After calls that go, the rest of a tour is followed from where they lead to. -/
theorem Follows.after {before : List Exchange} (goes : ∀ call ∈ before, call.Goes)
    (follows : Follows pruned (log ++ before) result) :
    Follows (pruned.1, before ++ pruned.2) log result := by
  obtain ⟨made, logged, cut⟩ := follows.cut
  exact ⟨⟨before ++ made, logged.trans (List.append_assoc ..), cut.after goes⟩, follows.state⟩

theorem follows_answered (call : Exchange) (flawless : call.flaw? = none) (state : State)
    (log : List Exchange) :
    Follows (state, [call]) log ((state, log ++ [call]), .ofAnswer call.answer) := by
  refine ⟨⟨[call], rfl, ?_⟩, fun _ => rfl⟩
  by_cases finished : Ending.ofAnswer call.answer = .finished
  · rw [finished]
    exact .whole (List.forall_mem_singleton.mpr ⟨flawless, finished⟩)
  · exact @Cut.behind [] [] call (List.forall_mem_nil _) flawless finished

variable (guide : Guide State)

mutual

theorem follows_tree (state : State) (log : List Exchange) : ∀ tree,
    Follows (guide.prunedTree state tree) log (guide.logged.tourTree (state, log) tree)
  | .node node branches => by
      rw [tourTree]
      cases flawed : node.flaw? with
      | some flaw =>
          obtain ⟨answer, rest, starts⟩ := pruned_starts guide state node branches
          refine ⟨⟨[], (List.append_nil log).symm, ?_⟩, by rintro ⟨⟩⟩
          rw [starts]
          exact @Cut.ahead [] rest ⟨⟨.entering, node⟩, answer⟩ flaw (List.forall_mem_nil _) flawed
      | none =>
          rcases entered : guide.enter state node with ⟨next, answer⟩
          let first : Exchange := ⟨⟨.entering, node⟩, answer⟩
          have logs : guide.logged.enter (state, log) node =
              ((next, log ++ [first]), answer) := by
            simp only [logged, entered, first]
          have alone := follows_answered first flawed next log
          rw [logs]
          rcases answer with cause | _ | _ | _
          · rw [pruned_entered entered (by rintro ⟨⟩)]
            exact alone.held (by rintro ⟨⟩) _ _
          · rw [pruned_entered entered (by rintro ⟨⟩)]
            have goes : ∀ call ∈ [first], call.Goes := List.forall_mem_singleton.mpr ⟨flawed, rfl⟩
            have below := follows_trees next (log ++ [first]) branches
            dsimp only
            generalize guide.logged.tourTrees (next, log ++ [first]) branches = result at below ⊢
            rcases result with ⟨⟨last, kept⟩, _ | _ | cause⟩
            · -- All that is below was toured, so the node is left.
              obtain ⟨made, rfl, cut⟩ := below.cut
              obtain ⟨rfl, all⟩ := cut.of_finished rfl
              obtain rfl := below.state rfl
              dsimp only
              rw [end_after_eq]
              exact ((follows_answered ⟨⟨.leaving, node⟩, _⟩ rfl _ _).after all).after goes
            · exact (below.held (by rintro ⟨⟩) _ _).after goes
            · exact (below.held (by rintro ⟨⟩) _ _).after goes
          · rw [pruned_skipped entered]
            exact alone
          · rw [pruned_entered entered (by rintro ⟨⟩)]
            exact alone.held (by rintro ⟨⟩) _ _

theorem follows_trees (state : State) (log : List Exchange) : ∀ trees,
    Follows (guide.prunedTrees state trees) log (guide.logged.tourTrees (state, log) trees)
  | [] => ⟨⟨[], (List.append_nil log).symm, .whole (List.forall_mem_nil _)⟩, fun _ => rfl⟩
  | tree :: rest => by
      rw [tourTrees, prunedTrees]
      have first := follows_tree state log tree
      generalize guide.logged.tourTree (state, log) tree = result at first ⊢
      rcases result with ⟨⟨next, kept⟩, _ | _ | cause⟩
      · obtain ⟨made, rfl, cut⟩ := first.cut
        obtain ⟨rfl, all⟩ := cut.of_finished rfl
        obtain rfl := first.state rfl
        exact (follows_trees _ _ rest).after all
      · exact first.held (by rintro ⟨⟩) _ _
      · exact first.held (by rintro ⟨⟩) _ _

end

end Following

section Continuing

/-- The guide never skips anything and never ends a tour. -/
def Continues (guide : Guide State) : Prop :=
  ∀ state node, (guide.enter state node).2 = .ok .proceed ∧
    (guide.leave state node).2 = .ok .proceed

variable {guide : Guide State}

mutual

theorem Continues.tree (continues : guide.Continues) (state : State) : ∀ tree,
    (guide.prunedTree state tree).2 = tree.events.map fun event => ⟨event, .ok .proceed⟩
  | .node node branches => by
      have entered : guide.enter state node = ((guide.enter state node).1, .ok .proceed) :=
        Prod.ext rfl (continues state node).1
      rw [pruned_entered entered (by rintro ⟨⟩), Tree.events]
      simp only [(continues _ node).2, continues.trees, List.map_cons, List.map_append,
        List.map_nil]

theorem Continues.trees (continues : guide.Continues) (state : State) : ∀ trees,
    (guide.prunedTrees state trees).2 =
      (Tree.eventsAll trees).map fun event => ⟨event, .ok .proceed⟩
  | [] => rfl
  | tree :: rest => by
      rw [prunedTrees, Tree.eventsAll, List.map_append]
      simp only [continues.tree, continues.trees]

end

end Continuing

/-- The calls that a tour makes of a guide are those of the pruned tour up to the cut, and the
tour is finished if and only if there is none. A guide that always continues on a sound
document enters every node that the document is made of once and leaves it once, and the node
that is left is always the one that was entered last among those that are still open. -/
theorem tour_is_pruned_and_cut (guide : Guide State) (state : State) (root : Node) :
    let made := guide.calls state root
    let ending := (guide.tour state root).2
    guide.logged.tour (state, []) root = (((guide.tour state root).1, made), ending) ∧
      Cut (guide.pruned state root) made ending ∧
      (ending = .finished ↔ ∀ call ∈ guide.pruned state root, call.Goes) ∧
      (guide.Continues → ∀ document, root = .document document → root.Sound →
        let events := made.map Exchange.event
        ending = .finished ∧ events.filterMap Event.entered? = document.nodes ∧
          (events.filterMap Event.left?).Perm document.nodes ∧ Nested [] events) := by
  intro made ending
  have logs := guide.logged_tour state root
  have follows : Cut (guide.pruned state root) made ending := by
    obtain ⟨all, logged, cut⟩ := (follows_tree guide state [] root.tree).cut
    rw [← tour, logs] at logged cut
    have same : made = all := logged
    rw [same]
    exact cut
  refine ⟨logs, follows, follows.finished_iff, ?_⟩
  rintro continues document rfl sound events
  have pruned : guide.pruned state (.document document) =
      (Node.document document).events.map fun event => ⟨event, .ok .proceed⟩ :=
    continues.tree state _
  have goes : ∀ call ∈ guide.pruned state (.document document), call.Goes := by
    rw [pruned]
    refine List.forall_mem_map.mpr fun event member => ⟨?_, rfl⟩
    rcases event with ⟨_ | _, node⟩
    · exact sound.intact _ member
    · rfl
  have finished := follows.finished_iff.mpr goes
  have all : events = (Node.document document).events := by
    have same : made = guide.pruned state (.document document) :=
      (follows.of_finished finished).1
    simp only [events, same, pruned, List.map_map]
    exact List.map_id _
  rw [all]
  refine ⟨finished, Node.entered_events _, Node.left_events _, ?_⟩
  have nested := (Node.document document).nested_events .done
  rwa [List.append_nil] at nested

/-- A guide that counts its calls, on an operation and the definition of a type. -/
theorem tour_that_counts_is_whole :
    let counting : Guide Nat :=
      ⟨fun count _ => (count + 1, .ok .proceed), fun count _ => (count + 1, .ok .proceed)⟩
    let argument : Argument := ⟨.start, "b", ⟨.start, .list [⟨.start, .boolean true⟩]⟩⟩
    let field : Selection := .field ⟨.start, none, "a", [argument], [⟨.start, "d", []⟩], none⟩
    let document : Document :=
      ⟨[.operation ⟨.start, .query, none, [], [], ⟨.start, [field]⟩⟩,
        .object ⟨.start, none, "Query", [], [],
          [⟨.start, none, "a", [], .list .start (.named ⟨.start, "Int"⟩), []⟩]⟩]⟩
    let events := (counting.calls 0 (.document document)).map Exchange.event
    counting.Continues ∧ (Node.document document).Sound ∧
      (counting.tour 0 (.document document)).2 = .finished ∧
      events.filterMap Event.entered? = document.nodes ∧
      (events.filterMap Event.left?).Perm document.nodes ∧ Nested [] events := by
  intro counting argument field document events
  have continues : counting.Continues := fun _ _ => ⟨rfl, rfl⟩
  have sound : (Node.document document).Sound := by
    simp [document, field, argument, Node.Sound, Node.listing, Node.tree_eq, Node.children,
      Node.ofDefinition, Node.ofSelection, Node.ofTypeRef, Node.ofValue, Tree.listing,
      Tree.listingAll, Node.flaw?]
  have toured := tour_is_pruned_and_cut counting 0 (.document document)
  exact ⟨continues, sound, toured.2.2.2 continues document rfl sound⟩

end Guide
end Calls
end GraphQL
