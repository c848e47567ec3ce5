import GraphQL.Proofs.Reporters
import Mathlib.Data.List.Basic

/-! Where a party stands: how many nodes it has entered and not left, who skips since when, and how
many they are. All three are changed in small steps, within a tour and across tours that end
anywhere. What is counted stays right at each step, so nothing is ever taken from zero, and a
tour that finishes leaves the party as it found it. -/
namespace GraphQL

structure Standing where
  depth : Nat
  silent : Nat
  skips : List (Option Nat)

namespace Standing

/-- As many members are silent as skip, and a member skips since a node that is entered. -/
structure Consistent (standing : Standing) : Prop where
  counted : standing.silent = standing.skips.countP Option.isSome
  within : ∀ level, some level ∈ standing.skips → 1 ≤ level ∧ level ≤ standing.depth

inductive Change where
  | descend
  | ascend
  | hush (place : Nat)
  | wake (place : Nat)

/-- There is no change that takes from zero, and none that hushes a member that skips or wakes one
that does not skip the node at the depth. -/
def change? (standing : Standing) : Change → Option Standing
  | .descend => some { standing with depth := standing.depth + 1 }
  | .ascend =>
      match standing.depth with
      | 0 => none
      | depth + 1 => some { standing with depth := depth }
  | .hush place =>
      if standing.skips[place]? = some none then
        some ⟨standing.depth, standing.silent + 1, standing.skips.set place (some standing.depth)⟩
      else none
  | .wake place =>
      match standing.silent with
      | 0 => none
      | silent + 1 =>
          if standing.skips[place]? = some (some standing.depth) then
            some ⟨standing.depth, silent, standing.skips.set place none⟩
          else none

/-- Changes that lead from one standing to another, through consistent ones only. -/
inductive Leads : Standing → List Change → Standing → Prop where
  | done {standing : Standing} (consistent : standing.Consistent) : Leads standing [] standing
  | step {standing next last : Standing} {change : Change} {more : List Change}
      (consistent : standing.Consistent) (changed : standing.change? change = some next)
      (later : Leads next more last) : Leads standing (change :: more) last

section Changes
variable {standing next final : Standing} {changes more : List Change} {depth silent : Nat}
  {front back : List (Option Nat)}

theorem consistent_iff : Consistent ⟨depth, silent, front⟩ ↔
    silent = front.countP Option.isSome ∧
      ∀ level, some level ∈ front → 1 ≤ level ∧ level ≤ depth :=
  ⟨fun ⟨counted, within⟩ => ⟨counted, within⟩, fun ⟨counted, within⟩ => ⟨counted, within⟩⟩

theorem Leads.last (leads : Leads standing changes final) : final.Consistent := by
  induction leads with
  | done consistent => exact consistent
  | step _ _ _ ih => exact ih

theorem Leads.append (leads : Leads standing changes next) (later : Leads next more final) :
    Leads standing (changes ++ more) final := by
  induction leads with
  | done => exact later
  | step consistent changed _ ih => exact .step consistent changed (ih later)

theorem Consistent.descend (consistent : Consistent standing) :
    Consistent { standing with depth := standing.depth + 1 } :=
  ⟨consistent.counted, fun level skipped =>
    (consistent.within level skipped).imp id Nat.le_succ_of_le⟩

theorem Consistent.ascend (consistent : Consistent ⟨depth + 1, silent, front⟩)
    (awake : some (depth + 1) ∉ front) : Consistent ⟨depth, silent, front⟩ := by
  rw [consistent_iff] at consistent ⊢
  refine ⟨consistent.1, fun level skipped => ?_⟩
  obtain ⟨low, high⟩ := consistent.2 level skipped
  have other : level ≠ depth + 1 := fun same => awake (same ▸ skipped)
  omega

theorem Consistent.hush (consistent : Consistent ⟨depth + 1, silent, front ++ none :: back⟩) :
    Consistent ⟨depth + 1, silent + 1, front ++ some (depth + 1) :: back⟩ := by
  rw [consistent_iff] at consistent ⊢
  obtain ⟨counted, within⟩ := consistent
  simp only [List.mem_append, List.mem_cons, Option.some.injEq] at within ⊢
  refine ⟨?_, ?_⟩
  · rw [counted]
    simp [List.countP_append, Nat.add_assoc]
  · rintro level (early | rfl | late)
    · exact within level (.inl early)
    · omega
    · exact within level (.inr (.inr late))

theorem Consistent.wake (consistent : Consistent ⟨depth, silent, front ++ some depth :: back⟩) :
    ∃ others, silent = others + 1 ∧ Consistent ⟨depth, others, front ++ none :: back⟩ := by
  rw [consistent_iff] at consistent
  obtain ⟨counted, within⟩ := consistent
  refine ⟨(front ++ none :: back).countP Option.isSome, ?_, consistent_iff.mpr ⟨rfl, ?_⟩⟩
  · rw [counted]
    simp [List.countP_append, Nat.add_assoc]
  · intro level skipped
    apply within level
    simp only [List.mem_append, List.mem_cons, reduceCtorEq, false_or] at skipped ⊢
    exact skipped.imp id .inr

theorem Leads.descend (consistent : Consistent standing) :
    Leads standing [.descend] { standing with depth := standing.depth + 1 } :=
  .step consistent rfl (.done consistent.descend)

theorem Leads.ascend (consistent : Consistent ⟨depth + 1, silent, front⟩)
    (awake : some (depth + 1) ∉ front) :
    Leads ⟨depth + 1, silent, front⟩ [.ascend] ⟨depth, silent, front⟩ :=
  .step consistent rfl (.done (consistent.ascend awake))

theorem Leads.hush (consistent : Consistent ⟨depth + 1, silent, front ++ none :: back⟩) :
    Leads ⟨depth + 1, silent, front ++ none :: back⟩ [.hush front.length]
      ⟨depth + 1, silent + 1, front ++ some (depth + 1) :: back⟩ := by
  refine .step consistent ?_ (.done consistent.hush)
  simp [change?]

theorem Leads.wake (consistent : Consistent ⟨depth, silent, front ++ some depth :: back⟩) :
    Leads ⟨depth, silent, front ++ some depth :: back⟩ [.wake front.length]
      ⟨depth, silent - 1, front ++ none :: back⟩ := by
  obtain ⟨others, rfl, after⟩ := consistent.wake
  refine .step consistent ?_ (.done after)
  simp [change?]

theorem Consistent.nobody (consistent : Consistent ⟨depth, 0, front⟩) (level : Nat) :
    some level ∉ front := by
  intro skipped
  have counted := (consistent_iff.mp consistent).1
  exact absurd rfl (List.countP_eq_zero.mp counted.symm _ skipped)

theorem Consistent.eq {other : Standing} (consistent : Consistent standing)
    (later : Consistent other) (depth : other.depth = standing.depth)
    (skips : other.skips = standing.skips) : other = standing := by
  have silent : other.silent = standing.silent := by
    rw [later.counted, skips, consistent.counted]
  cases other
  cases standing
  cases depth
  cases silent
  cases skips
  rfl

end Changes
end Standing

namespace Party
open Standing
variable {Context : Type}

def standing (party : Party Context) : Standing := ⟨party.depth, party.silent, party.skips⟩

section Logs

/-- The changes made by the members that skip a node, in their order. -/
def hushes (node : Node) (place : Nat) (context : Context) : List (Member Context) → List Change
  | [] => []
  | member :: rest =>
      if member.skippedAt.isSome then hushes node (place + 1) context rest
      else
        match member.visitor.enter context node with
        | ((_, context), .ok .proceed) => hushes node (place + 1) context rest
        | ((_, context), .ok .skip) => .hush place :: hushes node (place + 1) context rest
        | _ => []

def wakes (depth place : Nat) : List (Member Context) → List Change
  | [] => []
  | member :: rest =>
      if member.skippedAt = some depth then .wake place :: wakes depth (place + 1) rest
      else wakes depth (place + 1) rest

def enteringChanges (state : Party Context × Context) (node : Node) : List Change :=
  .descend :: hushes node 0 state.2 state.1.members

/-- A party that does not get past its members stays where it is. -/
def leavingChanges (state : Party Context × Context) (node : Node) : List Change :=
  let passage := leaveMembers node state.1.silent state.2 state.1.members
  match passage.answer with
  | .ok .proceed =>
      (if passage.silent > 0 then wakes state.1.depth 0 passage.members else []) ++ [.ascend]
  | _ => []

/-- The guide with a log of all changes. -/
def logged : Guide ((Party Context × Context) × List Change) where
  enter state node :=
    let result := enter state.1 node
    ((result.1, state.2 ++ enteringChanges state.1 node), result.2)
  leave state node :=
    let result := leave state.1 node
    ((result.1, state.2 ++ leavingChanges state.1 node), result.2)

end Logs

section Members
variable {depth silent : Nat} {node : Node} {context : Context} {members : List (Member Context)}

theorem hushes_lead (front : List (Option Nat))
    (consistent : Consistent ⟨depth + 1, silent, front ++ members.map Member.skippedAt⟩) :
    let passage := enterMembers (depth + 1) node silent context members
    Leads ⟨depth + 1, silent, front ++ members.map Member.skippedAt⟩
      (hushes node front.length context members)
      ⟨depth + 1, passage.silent, front ++ passage.members.map Member.skippedAt⟩ := by
  induction members generalizing front silent context with
  | nil => exact .done consistent
  | cons member rest ih =>
      have pass (skip : Option Nat) {silent : Nat} {context : Context}
          (consistent :
            Consistent ⟨depth + 1, silent, front ++ skip :: rest.map Member.skippedAt⟩) :=
        @ih silent context (front ++ [skip]) (by rwa [← List.append_cons])
      simp only [← List.append_cons, List.length_append, List.length_singleton] at pass
      rw [List.map_cons] at consistent ⊢
      rw [hushes, enterMembers]
      split
      · exact pass member.skippedAt consistent
      · next heard =>
        have unskipped : member.skippedAt = none := by simpa using heard
        rw [unskipped] at consistent ⊢
        rcases member.visitor.enter context node with ⟨⟨visitor, context⟩, fault | _ | _ | _⟩
        · exact .done consistent
        · exact pass none consistent
        · exact (Leads.hush consistent).append (pass (some (depth + 1)) consistent.hush)
        · exact .done consistent

theorem wakes_lead (front : List (Option Nat))
    (consistent : Consistent ⟨depth, silent, front ++ members.map Member.skippedAt⟩) :
    let woken := wake depth members silent
    Leads ⟨depth, silent, front ++ members.map Member.skippedAt⟩ (wakes depth front.length members)
      ⟨depth, woken.2, front ++ woken.1.map Member.skippedAt⟩ := by
  induction members generalizing front silent with
  | nil => exact .done consistent
  | cons member rest ih =>
      have pass (skip : Option Nat) {silent : Nat}
          (consistent : Consistent ⟨depth, silent, front ++ skip :: rest.map Member.skippedAt⟩) :=
        ih (front ++ [skip]) (by rwa [← List.append_cons])
      simp only [← List.append_cons, List.length_append, List.length_singleton] at pass
      rw [List.map_cons] at consistent ⊢
      rw [wakes, wake]
      split
      · next skipped =>
        rw [skipped] at consistent ⊢
        have woken := Leads.wake consistent
        exact woken.append (pass none woken.last)
      · exact pass member.skippedAt consistent

theorem leave_members_keep (node : Node) (silent : Nat) (context : Context)
    (members : List (Member Context)) :
    let passage := leaveMembers node silent context members
    passage.silent = silent ∧
      passage.members.map Member.skippedAt = members.map Member.skippedAt ∧
      passage.answer ≠ .ok .skip := by
  induction members generalizing context with
  | nil => exact ⟨rfl, rfl, fun skips => by cases skips⟩
  | cons member rest ih =>
      rw [leaveMembers]
      split
      · obtain ⟨same, skips, unskipped⟩ := ih context
        exact ⟨same, congrArg (member.skippedAt :: ·) skips, unskipped⟩
      · next heard =>
        have unmuted : member.skippedAt = none := by simpa using heard
        rw [List.map_cons, unmuted]
        rcases member.visitor.leave context node with ⟨⟨visitor, context⟩, fault | _ | _ | _⟩
        · exact ⟨rfl, rfl, fun skips => by cases skips⟩
        · obtain ⟨same, skips, unskipped⟩ := ih context
          exact ⟨same, congrArg (none :: ·) skips, unskipped⟩
        · obtain ⟨same, skips, unskipped⟩ := ih context
          exact ⟨same, congrArg (none :: ·) skips, unskipped⟩
        · exact ⟨rfl, rfl, fun skips => by cases skips⟩

/-- What becomes of a skip when the node at a depth is left. -/
def settle (depth : Nat) (skip : Option Nat) : Option Nat :=
  if skip = some depth then none else skip

/-- Whoever skips a node that is entered did not skip before. -/
theorem enter_members_settle (awake : ∀ member ∈ members, member.skippedAt ≠ some depth) :
    (enterMembers depth node silent context members).members.map
        (fun member => settle depth member.skippedAt) = members.map Member.skippedAt := by
  have unsettled (members : List (Member Context))
      (awake : ∀ member ∈ members, member.skippedAt ≠ some depth) :
      members.map (fun member => settle depth member.skippedAt) =
        members.map Member.skippedAt :=
    List.map_congr_left fun member joined => if_neg (awake member joined)
  induction members generalizing silent context with
  | nil => rfl
  | cons member rest ih =>
      obtain ⟨first, others⟩ := List.forall_mem_cons.mp awake
      rw [enterMembers]
      split
      · exact congrArg₂ List.cons (if_neg first) (ih others)
      · next heard =>
        have unmuted : member.skippedAt = none := by simpa using heard
        rw [List.map_cons, unmuted]
        rcases member.visitor.enter context node with ⟨⟨visitor, context⟩, fault | _ | _ | _⟩
        · exact congrArg (none :: ·) (unsettled rest others)
        · exact congrArg (none :: ·) (ih others)
        · exact congrArg₂ List.cons (if_pos rfl) (ih others)
        · exact congrArg (none :: ·) (unsettled rest others)

theorem wake_settles (depth silent : Nat) (members : List (Member Context)) :
    (wake depth members silent).1.map Member.skippedAt =
      members.map fun member => settle depth member.skippedAt := by
  induction members generalizing silent with
  | nil => rfl
  | cons member rest ih =>
      rw [wake]
      split
      · next skipped => exact congrArg₂ List.cons (if_pos skipped).symm (ih (silent - 1))
      · next other => exact congrArg₂ List.cons (if_neg other).symm (ih silent)

end Members

section Departing
variable {depth : Nat}

theorem settled (depth : Nat) (skips : List (Option Nat)) :
    some depth ∉ skips.map (settle depth) := by
  intro kept
  obtain ⟨skip, _, same⟩ := List.mem_map.mp kept
  by_cases here : skip = some depth
  · rw [settle, if_pos here] at same
    cases same
  · rw [settle, if_neg here] at same
    exact here same

theorem settle_of_awake {skips : List (Option Nat)} (awake : some depth ∉ skips) :
    skips.map (settle depth) = skips := by
  conv_rhs => rw [← List.map_id skips]
  refine List.map_congr_left fun skip listed => if_neg ?_
  rintro rfl
  exact awake listed

theorem depart_leads {passage : Passage Context} (consistent :
    Consistent ⟨depth + 1, passage.silent, passage.members.map Member.skippedAt⟩) :
    let party := depart (depth + 1) passage
    Leads ⟨depth + 1, passage.silent, passage.members.map Member.skippedAt⟩
        ((if passage.silent > 0 then wakes (depth + 1) 0 passage.members else []) ++ [.ascend])
        party.standing ∧
      party.depth = depth ∧
      party.skips = (passage.members.map Member.skippedAt).map (settle (depth + 1)) := by
  rw [depart]
  by_cases some : passage.silent > 0
  · rw [if_pos some, if_pos some]
    have woken := wakes_lead [] consistent
    have settles := wake_settles (depth + 1) passage.silent passage.members
    have awake := settled (depth + 1) (passage.members.map Member.skippedAt)
    rw [List.map_map] at awake ⊢
    exact ⟨woken.append (.ascend woken.last (settles ▸ awake)), rfl, settles⟩
  · rw [if_neg some, if_neg some]
    -- Nobody is counted, so nobody skips.
    have nobody : Option.some (depth + 1) ∉ passage.members.map Member.skippedAt := by
      rw [Nat.eq_zero_of_not_pos some] at consistent
      exact consistent.nobody (depth + 1)
    exact ⟨.ascend consistent nobody, rfl, (settle_of_awake nobody).symm⟩

end Departing

section Nodes
variable {state : Party Context × Context} {node : Node} {depth : Nat}

theorem enter_leads (node : Node) (consistent : state.1.standing.Consistent) :
    let after := (enter state node).1.1
    Leads state.1.standing (enteringChanges state node) after.standing ∧
      after.depth = state.1.depth + 1 ∧
      after.skips.map (settle after.depth) = state.1.skips := by
  have awake : ∀ member ∈ state.1.members, member.skippedAt ≠ some (state.1.depth + 1) := by
    intro member joined skipped
    have level := (consistent.within _ (List.mem_map.mpr ⟨member, joined, skipped⟩)).2
    exact absurd level (Nat.not_succ_le_self _)
  refine ⟨?_, rfl, ?_⟩
  · exact (Leads.descend consistent).append (hushes_lead [] consistent.descend)
  · simp only [enter, skips, List.map_map]
    exact enter_members_settle awake

theorem leave_leads (node : Node) (consistent : state.1.standing.Consistent)
    (entered : state.1.depth = depth + 1) :
    let result := leave state node
    Leads state.1.standing (leavingChanges state node) result.1.1.standing ∧
      (Ending.ofAnswer result.2 = .finished → result.1.1.depth = depth ∧
        result.1.1.skips = state.1.skips.map (settle (depth + 1))) := by
  rcases state with ⟨⟨_, silent, members⟩, context⟩
  subst entered
  obtain ⟨same, kept, unskipped⟩ := leave_members_keep node silent context members
  simp only [leave, leavingChanges, standing, skips] at consistent ⊢
  generalize leaveMembers node silent context members = passage at same kept unskipped ⊢
  rcases passage with ⟨_, members', context', answer⟩
  subst same
  rw [← kept] at consistent ⊢
  rcases answer with fault | _ | _ | _
  · exact ⟨.done consistent, nofun⟩
  · obtain ⟨leads, level, settled⟩ := depart_leads consistent
    exact ⟨leads, fun _ => ⟨level, settled⟩⟩
  · exact absurd rfl unskipped
  · exact ⟨.done consistent, nofun⟩

end Nodes

section Tours

/-- A party with the changes that it has made. -/
abbrev Logged (Context : Type) := (Party Context × Context) × List Change

theorem logged_carries : (logged : Guide (Logged Context)).Carries guide Prod.fst :=
  ⟨fun _ _ => rfl, fun _ _ => rfl⟩

theorem logged_entered {state : Logged Context} {after : Party Context × Context} {node : Node}
    {answer : Except Fault Action} (entered : enter state.1 node = (after, answer)) :
    logged.enter state node = ((after, state.2 ++ enteringChanges state.1 node), answer) := by
  simp only [logged, entered]

/-- The changes have led to where the party stands, and if it is finished, it stands as before. -/
def Keeps (start : Standing) (state : Logged Context) (result : Logged Context × Ending) : Prop :=
  Leads start result.1.2 result.1.1.1.standing ∧
    (result.2 = .finished → result.1.1.1.standing = state.1.1.standing)

variable {start : Standing} {state outside : Logged Context} {node : Node}

/-- Leaving a node brings back what entering it has changed. -/
theorem keeps_leaving (consistent : state.1.1.standing.Consistent)
    (kept : Leads start outside.2 outside.1.1.standing)
    (same : outside.1.1.standing = (enter state.1 node).1.1.standing) :
    Keeps start state (Guide.endAfter (logged.leave outside node)) := by
  obtain ⟨_, deeper, settles⟩ := enter_leads node consistent
  have depth : outside.1.1.depth = state.1.1.depth + 1 :=
    (congrArg Standing.depth same).trans deeper
  have skips : outside.1.1.skips = (enter state.1 node).1.1.skips := congrArg Standing.skips same
  obtain ⟨leads, returns⟩ := leave_leads node kept.last depth
  rw [Guide.end_after_eq]
  refine ⟨kept.append leads, fun finished => ?_⟩
  obtain ⟨level, settled⟩ := returns finished
  refine consistent.eq leads.last level ?_
  rw [← deeper, skips, settles] at settled
  exact settled

mutual

theorem tour_tree_keeps (state : Logged Context) (kept : Leads start state.2 state.1.1.standing) :
    ∀ tree, Keeps start state (logged.tourTree state tree)
  | .node node branches => by
      rw [Guide.tourTree]
      cases node.flaw? with
      | some flaw => exact ⟨kept, nofun⟩
      | none =>
          have inside := kept.append (enter_leads node kept.last).1
          have unskipped := never_skips state.1 node
          rcases entered : enter state.1 node with ⟨after, answer⟩
          rw [entered] at inside
          rw [logged_entered entered]
          rcases answer with fault | _ | _ | _
          · exact ⟨inside, nofun⟩
          · have below :=
              tour_trees_keep (after, state.2 ++ enteringChanges state.1 node) inside branches
            dsimp only
            generalize logged.tourTrees (after, state.2 ++ enteringChanges state.1 node) branches =
              result at below ⊢
            rcases result with ⟨outside, _ | _ | _⟩
            · refine keeps_leaving kept.last below.1 ?_
              rw [entered]
              exact below.2 rfl
            · exact ⟨below.1, nofun⟩
            · exact ⟨below.1, nofun⟩
          · exact absurd (congrArg Prod.snd entered) unskipped
          · exact ⟨inside, nofun⟩

theorem tour_trees_keep (state : Logged Context) (kept : Leads start state.2 state.1.1.standing) :
    ∀ trees, Keeps start state (logged.tourTrees state trees)
  | [] => ⟨kept, fun _ => rfl⟩
  | tree :: rest => by
      have first := tour_tree_keeps state kept tree
      rw [Guide.tourTrees]
      rcases toured : logged.tourTree state tree with ⟨next, _ | _ | _⟩
      · rw [toured] at first
        obtain ⟨leads, finished⟩ := tour_trees_keep next first.1 rest
        exact ⟨leads, fun ended => (finished ended).trans (first.2 rfl)⟩
      · exact ⟨(toured ▸ first).1, nofun⟩
      · exact ⟨(toured ▸ first).1, nofun⟩

end

/-- The log makes no difference to the tour. -/
theorem logged_tour (party : Party Context) (context : Context) (root : Node) :
    (logged.tour ((party, context), []) root).1.1 = (guide.tour (party, context) root).1 ∧
      (logged.tour ((party, context), []) root).2 = (guide.tour (party, context) root).2 := by
  have carried := logged_carries.tour_tree ((party, context), []) root.tree
  rw [Guide.tour, Guide.tour, carried]
  exact ⟨rfl, rfl⟩

end Tours

section Trips

/-- A tour that a party is sent on, with the context that it is given. -/
structure Trip (Context : Type) where
  context : Context
  root : Node

/-- The party that comes back from a tour, wherever the tour has ended. -/
def back (party : Party Context) (trip : Trip Context) : Party Context :=
  (guide.tour (party, trip.context) trip.root).1.1

def ending (party : Party Context) (trip : Trip Context) : Ending :=
  (guide.tour (party, trip.context) trip.root).2

/-- The changes that a party makes on a tour. -/
def changes (party : Party Context) (trip : Trip Context) : List Change :=
  (logged.tour ((party, trip.context), []) trip.root).1.2

/-- The same party takes one tour after the other. -/
def backFrom (party : Party Context) (trips : List (Trip Context)) : Party Context :=
  trips.foldl back party

def changesOn (party : Party Context) : List (Trip Context) → List Change
  | [] => []
  | trip :: rest => party.changes trip ++ (party.back trip).changesOn rest

variable {party : Party Context}

theorem back_stands (consistent : party.standing.Consistent) (trip : Trip Context) :
    Leads party.standing (party.changes trip) (party.back trip).standing ∧
      (party.ending trip = .finished → (party.back trip).standing = party.standing) := by
  have keeps : Keeps party.standing ((party, trip.context), [])
      (logged.tour ((party, trip.context), []) trip.root) :=
    tour_tree_keeps ((party, trip.context), []) (.done consistent) trip.root.tree
  obtain ⟨same, ends⟩ := logged_tour party trip.context trip.root
  rw [Keeps, same, ends] at keeps
  exact keeps

theorem back_from_stands (consistent : party.standing.Consistent) (trips : List (Trip Context)) :
    Leads party.standing (party.changesOn trips) (party.backFrom trips).standing := by
  induction trips generalizing party with
  | nil => exact .done consistent
  | cons trip rest ih =>
      have first := (back_stands consistent trip).1
      exact first.append (ih first.last)

theorem consistent_of_visitors (visitors : List (Visitor Context)) :
    (ofVisitors visitors).standing.Consistent := by
  have awake : ∀ skip ∈ (ofVisitors visitors).skips, skip = none := by
    simp [ofVisitors, skips]
  constructor
  · exact (List.countP_eq_zero.mpr fun skip listed => by simp [awake skip listed]).symm
  · exact fun level skipped => absurd (awake _ skipped) (Option.some_ne_none level)

/-- On all tours of a party, one after the other, every change leads from a consistent standing to
a consistent one. A tour that finishes leaves the party as it was, also if it was left somewhere
by a tour before. -/
theorem parties_stand_consistently (visitors : List (Visitor Context))
    (trips : List (Trip Context)) :
    let party := ofVisitors visitors
    Leads party.standing (party.changesOn trips) (party.backFrom trips).standing ∧
      ∀ trip, (party.backFrom trips).ending trip = .finished →
        ((party.backFrom trips).back trip).standing = (party.backFrom trips).standing := by
  intro party
  have leads := back_from_stands (consistent_of_visitors visitors) trips
  exact ⟨leads, fun trip finished => (back_stands leads.last trip).2 finished⟩

/-- The first tour is stopped inside a selection set that one member skips. The second one finds
that member silent, and another member skips the field that it goes to. -/
theorem stands_below_stopped_tour :
    let skipping := (Visitor.named "skipping").skipping .selectionSet
    let stopping := (Visitor.named "stopping").entering .fragmentSpread
      fun state context _ => ⟨state, context, .ok .stop⟩
    let party : Party Unit :=
      ofVisitors [skipping, stopping, (Visitor.named "later").skipping .field]
    let stopped : Trip Unit := ⟨(), .selectionSet ⟨.start, [.spread ⟨.start, "A", []⟩]⟩⟩
    let finished : Trip Unit := ⟨(), .selection (.field ⟨.start, none, "a", [], [], none⟩)⟩
    let below := party.backFrom [stopped]
    party.changesOn [stopped] = [.descend, .hush 0, .descend] ∧
      Leads party.standing (party.changesOn [stopped]) below.standing ∧
      below.standing = ⟨2, 1, [some 1, none, none]⟩ ∧
      below.changes finished = [.descend, .hush 2, .wake 2, .ascend] ∧
      below.ending finished = .finished ∧
      (below.back finished).standing = below.standing := by
  intro skipping stopping party stopped finished below
  obtain ⟨leads, returns⟩ := parties_stand_consistently
    [skipping, stopping, (Visitor.named "later").skipping .field] [stopped]
  have tree : stopped.root.tree =
      .node stopped.root [.node (.selection (.spread ⟨.start, "A", []⟩)) []] := by
    simp [stopped, Node.tree_eq, Node.children, Node.ofSelection]
  have tree' : finished.root.tree = .node finished.root [] := by
    simp [finished, Node.tree_eq, Node.children, Node.ofSelection]
  have changed : party.changesOn [stopped] = [.descend, .hush 0, .descend] := by
    simp only [changesOn, changes, Guide.tour, tree]
    rfl
  have stands : below.standing = ⟨2, 1, [some 1, none, none]⟩ := by
    simp only [below, backFrom, List.foldl, back, Guide.tour, tree]
    rfl
  have later : below.changes finished = [.descend, .hush 2, .wake 2, .ascend] := by
    simp only [below, backFrom, List.foldl, back, changes, Guide.tour, tree, tree']
    rfl
  have ends : below.ending finished = .finished := by
    simp only [below, backFrom, List.foldl, back, ending, Guide.tour, tree, tree']
    rfl
  exact ⟨changed, leads, stands, later, ends, returns finished ends⟩

end Trips
end Party
end GraphQL
