import GraphQL.Proofs.PartyStanding
import Mathlib.Data.List.Forall2

/-! Parties that were left somewhere. A tour that ends early leaves the party below the nodes that
it has entered, and the next tour goes on from that depth. It never comes back to a node that was
skipped then, so who skipped one is mute for good. All others hear what they hear in a party that
has just met. -/
namespace GraphQL

section Visitors
variable {Context : Type}

namespace Visitor

def on (visitor : Visitor Context) :
    Phase → NodeKind → Option (Callback visitor.State Context)
  | .entering => visitor.onEnter
  | .leaving => visitor.onLeave

/-- What a visitor does at an event. -/
def respond (visitor : Visitor Context) (context : Context) (event : Event) :
    (Visitor Context × Context) × Except Fault Action :=
  visitor.call (visitor.on event.phase event.node.kind) context event.node

theorem enter_eq_respond (visitor : Visitor Context) (context : Context) (node : Node) :
    visitor.enter context node = visitor.respond context ⟨.entering, node⟩ := rfl

theorem leave_eq_respond (visitor : Visitor Context) (context : Context) (node : Node) :
    visitor.leave context node = visitor.respond context ⟨.leaving, node⟩ := rfl

/-- No callback changes what the visitor keeps for itself. -/
def Stateless (visitor : Visitor Context) : Prop :=
  ∀ phase kind callback, visitor.on phase kind = some callback →
    ∀ context node, (callback visitor.state context node).state = visitor.state

/-- The visitor without its callbacks. -/
def deaf (visitor : Visitor Context) : Visitor Context :=
  { visitor with onEnter := fun _ => none, onLeave := fun _ => none }

def Deaf (visitor : Visitor Context) : Prop := ∀ phase kind, visitor.on phase kind = none

/-- Whatever a callback finds in its state, it keeps what holds of the context. -/
def Respects (good : Context → Prop) (visitor : Visitor Context) : Prop :=
  ∀ phase kind callback, visitor.on phase kind = some callback →
    ∀ state context node, good context → good (callback state context node).context

variable {visitor : Visitor Context} {good : Context → Prop}

theorem Deaf.respond (deaf : visitor.Deaf) (context : Context) (event : Event) :
    visitor.respond context event = ((visitor, context), .ok .proceed) := by
  rw [Visitor.respond, deaf, call]

theorem Stateless.respond (stateless : visitor.Stateless) (context : Context) (event : Event) :
    (visitor.respond context event).1.1 = visitor := by
  rw [Visitor.respond]
  cases registered : visitor.on event.phase event.node.kind with
  | none => rfl
  | some callback =>
      have same := stateless _ _ callback registered context event.node
      rw [call, same]

theorem Respects.respond (respects : visitor.Respects good) {context : Context}
    (holds : good context) (event : Event) :
    let result := visitor.respond context event
    result.1.1.Respects good ∧ good result.1.2 := by
  rw [Visitor.respond]
  cases registered : visitor.on event.phase event.node.kind with
  | none => exact ⟨respects, holds⟩
  | some callback =>
      refine ⟨fun phase kind other found => ?_, respects _ _ callback registered _ _ _ holds⟩
      cases phase with
      | entering => exact respects .entering kind other found
      | leaving => exact respects .leaving kind other found

end Visitor

/-- Visitors of two kinds, alike in what they do and answer as long as their contexts are alike. -/
structure Likeness (Context Other : Type) where
  visitors : Visitor Context → Visitor Other → Prop
  contexts : Context → Other → Prop
  answers : ∀ {visitor other context shared}, visitors visitor other → contexts context shared →
    ∀ event, ∃ visitor' other' context' shared' answer,
      visitor.respond context event = ((visitor', context'), answer) ∧
        other.respond shared event = ((other', shared'), answer) ∧
        visitors visitor' other' ∧ contexts context' shared'

/-- The same visitors, and a context of which something holds that they keep. -/
def Likeness.keeping (good : Context → Prop) : Likeness Context Context where
  visitors visitor other := visitor = other ∧ visitor.Respects good
  contexts context shared := context = shared ∧ good context
  answers := by
    rintro visitor _ context _ ⟨rfl, respects⟩ ⟨rfl, holds⟩ event
    obtain ⟨kept, after⟩ := respects.respond holds event
    exact ⟨_, _, _, _, _, rfl, rfl, ⟨rfl, kept⟩, ⟨rfl, after⟩⟩

end Visitors

namespace Party
open Standing
variable {Context Other : Type} {alike : Likeness Context Other} {base : Nat}

section Echoes

/-- Who skipped a node when the tours began that are compared is as good as deaf. -/
inductive MemberEchoes (alike : Likeness Context Other) (base : Nat) :
    Member Context → Member Other → Prop where
  | mute {visitor : Visitor Context} {other : Visitor Other} {level : Nat} (old : level ≤ base)
      (deaf : other.Deaf) : MemberEchoes alike base ⟨visitor, some level⟩ ⟨other, none⟩
  | awake {visitor : Visitor Context} {other : Visitor Other}
      (same : alike.visitors visitor other) :
      MemberEchoes alike base ⟨visitor, none⟩ ⟨other, none⟩
  | skips {visitor : Visitor Context} {other : Visitor Other} (level : Nat)
      (same : alike.visitors visitor other) :
      MemberEchoes alike base ⟨visitor, some (base + level)⟩ ⟨other, some level⟩

structure PassageEchoes (alike : Likeness Context Other) (base : Nat) (passage : Passage Context)
    (fresh : Passage Other) : Prop where
  members : List.Forall₂ (MemberEchoes alike base) passage.members fresh.members
  contexts : alike.contexts passage.context fresh.context
  answer : passage.answer = fresh.answer

/-- A party that had entered `base` nodes before, and one that had not. -/
structure Echoes (alike : Likeness Context Other) (base : Nat) (stale : Party Context)
    (fresh : Party Other) : Prop where
  depth : stale.depth = base + fresh.depth
  members : List.Forall₂ (MemberEchoes alike base) stale.members fresh.members
  stale_stands : stale.standing.Consistent
  fresh_stands : fresh.standing.Consistent

variable {depth silent silent' : Nat} {node : Node} {context : Context} {shared : Other}
  {members : List (Member Context)} {others : List (Member Other)}

theorem PassageEchoes.after {passage : Passage Context} {fresh : Passage Other}
    {member : Member Context} {other : Member Other}
    (rest : PassageEchoes alike base passage fresh) (same : MemberEchoes alike base member other) :
    PassageEchoes alike base (passage.after member) (fresh.after other) :=
  ⟨.cons same rest.members, rest.contexts, rest.answer⟩

theorem enter_members_echo (echoes : List.Forall₂ (MemberEchoes alike base) members others)
    (contexts : alike.contexts context shared) :
    PassageEchoes alike base (enterMembers (base + depth) node silent context members)
      (enterMembers depth node silent' shared others) := by
  induction echoes generalizing silent silent' context shared with
  | nil => exact ⟨.nil, contexts, rfl⟩
  | cons same later ih =>
      cases same with
      | mute old deaf =>
          simp only [enterMembers, Visitor.enter_eq_respond, deaf.respond, Option.isSome_some,
            Option.isSome_none, ↓reduceIte, Bool.false_eq_true]
          exact (ih contexts).after (.mute old deaf)
      | awake same =>
          simp only [enterMembers, Visitor.enter_eq_respond, Option.isSome_none, Bool.false_eq_true,
            ↓reduceIte]
          obtain ⟨_, _, _, _, answer, met, met', same, contexts⟩ :=
            alike.answers same contexts ⟨.entering, node⟩
          rw [met, met']
          rcases answer with fault | _ | _ | _
          · exact ⟨.cons (.awake same) later, contexts, rfl⟩
          · exact (ih contexts).after (.awake same)
          · exact (ih contexts).after (.skips depth same)
          · exact ⟨.cons (.awake same) later, contexts, rfl⟩
      | skips level same =>
          simp only [enterMembers, Option.isSome_some, ↓reduceIte]
          exact (ih contexts).after (.skips level same)

theorem leave_members_echo (echoes : List.Forall₂ (MemberEchoes alike base) members others)
    (contexts : alike.contexts context shared) :
    PassageEchoes alike base (leaveMembers node silent context members)
      (leaveMembers node silent' shared others) := by
  induction echoes generalizing context shared with
  | nil => exact ⟨.nil, contexts, rfl⟩
  | cons same later ih =>
      cases same with
      | mute old deaf =>
          simp only [leaveMembers, Visitor.leave_eq_respond, deaf.respond, Option.isSome_some,
            Option.isSome_none, ↓reduceIte, Bool.false_eq_true]
          exact (ih contexts).after (.mute old deaf)
      | awake same =>
          simp only [leaveMembers, Visitor.leave_eq_respond, Option.isSome_none, Bool.false_eq_true,
            ↓reduceIte]
          obtain ⟨_, _, _, _, answer, met, met', same, contexts⟩ :=
            alike.answers same contexts ⟨.leaving, node⟩
          rw [met, met']
          rcases answer with fault | _ | _ | _
          · exact ⟨.cons (.awake same) later, contexts, rfl⟩
          · exact (ih contexts).after (.awake same)
          · exact (ih contexts).after (.awake same)
          · exact ⟨.cons (.awake same) later, contexts, rfl⟩
      | skips level same =>
          simp only [leaveMembers, Option.isSome_some, ↓reduceIte]
          exact (ih contexts).after (.skips level same)

/-- No depth below `base` is one at which a skip from before would end. -/
theorem wake_echoes (echoes : List.Forall₂ (MemberEchoes alike base) members others)
    (below : 1 ≤ depth) :
    List.Forall₂ (MemberEchoes alike base) (wake (base + depth) members silent).1
      (wake depth others silent').1 := by
  induction echoes generalizing silent silent' with
  | nil => exact .nil
  | cons same later ih =>
      cases same with
      | @mute visitor other level old deaf =>
          have asleep : some level ≠ some (base + depth) := by
            rw [Ne, Option.some.injEq]
            omega
          rw [wake, wake, if_neg asleep, if_neg (Option.some_ne_none depth).symm]
          exact .cons (.mute old deaf) ih
      | awake same =>
          rw [wake, wake, if_neg (Option.some_ne_none _).symm, if_neg (Option.some_ne_none _).symm]
          exact .cons (.awake same) ih
      | skips level same =>
          by_cases here : level = depth
          · subst here
            rw [wake, wake, if_pos rfl, if_pos rfl]
            exact .cons (.awake same) ih
          · have asleep : some (base + level) ≠ some (base + depth) := by
              rw [Ne, Option.some.injEq]
              omega
            rw [wake, wake, if_neg asleep, if_neg fun same => here (Option.some.inj same)]
            exact .cons (.skips level same) ih

theorem wake_of_awake (awake : some depth ∉ members.map Member.skippedAt) :
    (wake depth members silent).1 = members := by
  induction members generalizing silent with
  | nil => rfl
  | cons member rest ih =>
      rw [List.map_cons, List.mem_cons, not_or] at awake
      rw [wake, if_neg (Ne.symm awake.1)]
      exact congrArg (member :: ·) (ih awake.2)

/-- Nobody would wake where the party does not look, since nobody skips. -/
theorem depart_members {passage : Passage Context}
    (consistent : Consistent ⟨depth, passage.silent, passage.members.map Member.skippedAt⟩) :
    (depart depth passage).members = (wake depth passage.members passage.silent).1 := by
  rw [depart]
  split
  · rfl
  · next none =>
    rw [Nat.eq_zero_of_not_pos none] at consistent
    exact (wake_of_awake (consistent.nobody depth)).symm

theorem left_stands {party : Party Context} (consistent : party.standing.Consistent) (node : Node)
    (context : Context) :
    let passage := leaveMembers node party.silent context party.members
    Consistent ⟨party.depth, passage.silent, passage.members.map Member.skippedAt⟩ := by
  obtain ⟨same, kept, _⟩ := leave_members_keep node party.silent context party.members
  dsimp only
  rw [same, kept]
  exact consistent

theorem depart_echoes {passage : Passage Context} {fresh : Passage Other}
    (echoes : PassageEchoes alike base passage fresh)
    (stale_stands :
      Consistent ⟨base + (depth + 1), passage.silent, passage.members.map Member.skippedAt⟩)
    (fresh_stands : Consistent ⟨depth + 1, fresh.silent, fresh.members.map Member.skippedAt⟩) :
    Echoes alike base (depart (base + (depth + 1)) passage) (depart (depth + 1) fresh) := by
  obtain ⟨leads, level, _⟩ := @depart_leads _ (base + depth) passage stale_stands
  obtain ⟨leads', level', _⟩ := depart_leads fresh_stands
  refine ⟨?_, ?_, leads.last, leads'.last⟩
  · rw [level']
    exact level
  · rw [depart_members stale_stands, depart_members fresh_stands]
    exact wake_echoes echoes.members (Nat.le_add_left 1 depth)

end Echoes

section Tours
variable {stale : Party Context} {fresh : Party Other} {context : Context} {shared : Other}
  {depth : Nat}

/-- Results of the same tour. Parties that have finished it are still alike, at the depth at which
they began. -/
structure Resounds (alike : Likeness Context Other) (base depth : Nat)
    (result : (Party Context × Context) × Ending) (result' : (Party Other × Other) × Ending) :
    Prop where
  contexts : alike.contexts result.1.2 result'.1.2
  ending : result.2 = result'.2
  returned : result'.2 = .finished →
    Echoes alike base result.1.1 result'.1.1 ∧ result'.1.1.depth = depth

theorem enter_echoes (echoes : Echoes alike base stale fresh)
    (contexts : alike.contexts context shared) (node : Node) :
    let result := guide.enter (stale, context) node
    let result' := guide.enter (fresh, shared) node
    Echoes alike base result.1.1 result'.1.1 ∧ alike.contexts result.1.2 result'.1.2 ∧
      result.2 = result'.2 := by
  have deeper : stale.depth + 1 = base + (fresh.depth + 1) := congrArg (· + 1) echoes.depth
  have passages : PassageEchoes alike base
      (enterMembers (stale.depth + 1) node stale.silent context stale.members)
      (enterMembers (fresh.depth + 1) node fresh.silent shared fresh.members) := by
    rw [deeper]
    exact enter_members_echo echoes.members contexts
  have stands := (@enter_leads _ (stale, context) node echoes.stale_stands).1.last
  have stands' := (@enter_leads _ (fresh, shared) node echoes.fresh_stands).1.last
  exact ⟨⟨deeper, passages.members, stands, stands'⟩, passages.contexts, passages.answer⟩

theorem leave_echoes (echoes : Echoes alike base stale fresh)
    (contexts : alike.contexts context shared) (entered : fresh.depth = depth + 1) (node : Node) :
    Resounds alike base depth (Guide.endAfter (guide.leave (stale, context) node))
      (Guide.endAfter (guide.leave (fresh, shared) node)) := by
  have passages : PassageEchoes alike base
      (leaveMembers node stale.silent context stale.members)
      (leaveMembers node fresh.silent shared fresh.members) :=
    leave_members_echo echoes.members contexts
  have stands := left_stands echoes.stale_stands node context
  have stands' := left_stands echoes.fresh_stands node shared
  have unskipped := (leave_members_keep node fresh.silent shared fresh.members).2.2
  rw [echoes.depth, entered] at stands
  rw [entered] at stands'
  simp only [guide, leave, Guide.end_after_eq, echoes.depth, entered]
  generalize leaveMembers node stale.silent context stale.members = passage at passages stands ⊢
  generalize leaveMembers node fresh.silent shared fresh.members = passage'
    at passages stands' unskipped ⊢
  rw [passages.answer]
  rcases answered : passage'.answer with fault | _ | _ | _
  · exact ⟨passages.contexts, rfl, fun finished => by cases finished⟩
  · have level := (depart_leads stands').2.1
    exact ⟨passages.contexts, rfl, fun _ => ⟨depart_echoes passages stands stands', level⟩⟩
  · exact absurd answered unskipped
  · exact ⟨passages.contexts, rfl, fun finished => by cases finished⟩

mutual

theorem tour_tree_echoes (stale : Party Context) (fresh : Party Other) (context : Context)
    (shared : Other) (echoes : Echoes alike base stale fresh)
    (contexts : alike.contexts context shared) :
    ∀ tree, Resounds alike base fresh.depth (guide.tourTree (stale, context) tree)
      (guide.tourTree (fresh, shared) tree)
  | .node node branches => by
      rw [Guide.tourTree, Guide.tourTree]
      cases node.flaw? with
      | some flaw => exact ⟨contexts, rfl, nofun⟩
      | none =>
          have unskipped := never_skips (fresh, shared) node
          have deeper : (guide.enter (fresh, shared) node).1.1.depth = fresh.depth + 1 := rfl
          obtain ⟨inside, contexts, answers⟩ := enter_echoes echoes contexts node
          generalize guide.enter (stale, context) node = result at inside contexts answers ⊢
          generalize guide.enter (fresh, shared) node = result'
            at inside contexts answers deeper unskipped ⊢
          rcases result with ⟨⟨stale, context⟩, answer⟩
          rcases result' with ⟨⟨fresh', shared⟩, _⟩
          cases answers
          rcases answer with fault | _ | _ | _
          · exact ⟨contexts, rfl, nofun⟩
          · have below := tour_trees_echo stale fresh' context shared inside contexts branches
            dsimp only
            generalize guide.tourTrees (stale, context) branches = result at below ⊢
            generalize guide.tourTrees (fresh', shared) branches = result' at below ⊢
            rcases result with ⟨⟨stale, context⟩, ending⟩
            rcases result' with ⟨⟨fresh, shared⟩, _⟩
            obtain ⟨contexts, rfl, returned⟩ := below
            rcases ending with _ | _ | fault
            · obtain ⟨outside, level⟩ := returned rfl
              exact leave_echoes outside contexts (level.trans deeper) node
            · exact ⟨contexts, rfl, nofun⟩
            · exact ⟨contexts, rfl, nofun⟩
          · exact absurd rfl unskipped
          · exact ⟨contexts, rfl, nofun⟩

theorem tour_trees_echo (stale : Party Context) (fresh : Party Other) (context : Context)
    (shared : Other) (echoes : Echoes alike base stale fresh)
    (contexts : alike.contexts context shared) :
    ∀ trees, Resounds alike base fresh.depth (guide.tourTrees (stale, context) trees)
      (guide.tourTrees (fresh, shared) trees)
  | [] => ⟨contexts, rfl, fun _ => ⟨echoes, rfl⟩⟩
  | tree :: rest => by
      have first := tour_tree_echoes stale fresh context shared echoes contexts tree
      rw [Guide.tourTrees, Guide.tourTrees]
      generalize guide.tourTree (stale, context) tree = result at first ⊢
      generalize guide.tourTree (fresh, shared) tree = result' at first ⊢
      rcases result with ⟨⟨stale, context⟩, ending⟩
      rcases result' with ⟨⟨next, shared⟩, _⟩
      obtain ⟨contexts, rfl, returned⟩ := first
      rcases ending with _ | _ | fault
      · obtain ⟨echoes, level⟩ := returned rfl
        have later := tour_trees_echo stale next context shared echoes contexts rest
        rwa [level] at later
      · exact ⟨contexts, rfl, nofun⟩
      · exact ⟨contexts, rfl, nofun⟩

end

end Tours
end Party

section Notices
variable {Context : Type}

/-- A call of a callback, with what the callback is given. -/
structure Notice (Context : Type) where
  member : Nat
  event : Event
  context : Context

abbrev Noticed (Context : Type) := Context × List (Notice Context)

namespace Visitor

def notice {State : Type} (member : Nat) (phase : Phase) (callback : Callback State Context) :
    Callback State (Noticed Context) :=
  fun state given node =>
    let reply := callback state given.1 node
    ⟨reply.state, (reply.context, given.2 ++ [⟨member, ⟨phase, node⟩, given.1⟩]), reply.answer⟩

/-- The visitor with a notice of each of its calls. -/
def noticed (member : Nat) (visitor : Visitor Context) : Visitor (Noticed Context) where
  name := visitor.name
  State := visitor.State
  state := visitor.state
  onEnter kind := (visitor.onEnter kind).map (notice member .entering)
  onLeave kind := (visitor.onLeave kind).map (notice member .leaving)

variable {visitor : Visitor Context} {member : Nat}

theorem noticed_on (phase : Phase) (kind : NodeKind) :
    (visitor.noticed member).on phase kind =
      (visitor.on phase kind).map (notice member phase) := by
  cases phase <;> rfl

theorem deaf_noticed (visitor : Visitor Context) (member : Nat) :
    (visitor.deaf.noticed member).Deaf := by
  intro phase kind
  cases phase <;> rfl

theorem noticed_respects {good : Nat → Prop} (named : good member) :
    (visitor.noticed member).Respects fun given => ∀ notice ∈ given.2, good notice.member := by
  intro phase kind callback registered state given node holds notice made
  obtain ⟨callback, -, rfl⟩ :=
    Option.map_eq_some_iff.mp ((noticed_on phase kind).symm.trans registered)
  rcases List.mem_append.mp made with early | now
  · exact holds notice early
  · rwa [List.mem_singleton.mp now]

end Visitor

/-- The notices make no difference to what a visitor does. -/
def Likeness.noticing : Likeness Context (Noticed Context) where
  visitors visitor other := ∃ member, other = visitor.noticed member
  contexts context shared := context = shared.1
  answers := by
    rintro visitor _ _ shared ⟨member, rfl⟩ rfl event
    simp only [Visitor.respond, Visitor.noticed_on]
    cases visitor.on event.phase event.node.kind with
    | none => exact ⟨visitor, visitor.noticed member, _, _, _, rfl, rfl, ⟨member, rfl⟩, rfl⟩
    | some callback =>
        let state := (callback visitor.state shared.1 event.node).state
        exact ⟨{ visitor with state }, { visitor with state }.noticed member, _, _, _, rfl, rfl,
          ⟨member, rfl⟩, rfl⟩

namespace Party
open Standing
variable {party : Party Context}

def Trip.noticed (trip : Trip Context) : Trip (Noticed Context) := ⟨(trip.context, []), trip.root⟩

/-- The members are numbered as they have joined. -/
def noticed (party : Party Context) : Party (Noticed Context) :=
  { party with
    members := party.members.zipIdx.map fun entry =>
      ⟨entry.1.visitor.noticed entry.2, entry.1.skippedAt⟩ }

/-- The calls that the members of a party receive on a tour. -/
def notices (party : Party Context) (trip : Trip Context) : List (Notice Context) :=
  (guide.tour (party.noticed, trip.noticed.context) trip.root).1.2.2

theorem noticed_stands (party : Party Context) : party.noticed.standing = party.standing := by
  have skips : party.noticed.skips = party.skips := by
    simp only [noticed, Party.skips, List.map_map]
    conv_rhs => rw [← List.zipIdx_map_fst 0 party.members, List.map_map]
    rfl
  rw [standing, standing, skips]
  rfl

theorem noticed_ending (consistent : party.standing.Consistent) (trip : Trip Context) :
    party.noticed.ending trip.noticed = party.ending trip := by
  have members : List.Forall₂ (MemberEchoes .noticing 0) party.members party.noticed.members := by
    rw [noticed]
    conv in party.members => rw [← List.zipIdx_map_fst 0 party.members]
    rw [List.forall₂_map_left_iff, List.forall₂_map_right_iff, List.forall₂_same]
    rintro ⟨⟨visitor, _ | level⟩, place⟩ joined
    · exact .awake ⟨place, rfl⟩
    · have skips : MemberEchoes .noticing 0 ⟨visitor, some (0 + level)⟩
          ⟨visitor.noticed place, some level⟩ := .skips level ⟨place, rfl⟩
      rwa [Nat.zero_add] at skips
  have echoes : Echoes .noticing 0 party party.noticed :=
    ⟨(Nat.zero_add _).symm, members, consistent, party.noticed_stands ▸ consistent⟩
  have toured := tour_tree_echoes _ _ trip.context trip.noticed.context echoes rfl trip.root.tree
  exact toured.ending.symm

/-- The visitor that is heard of in later tours. -/
def hearer (member : Member Context) : Visitor Context :=
  if member.skippedAt.isSome then member.visitor.deaf else member.visitor

/-- A party that has just met, with no callbacks for those who skip. -/
def hearers (party : Party Context) : Party Context := ofVisitors (party.members.map hearer)

def hears (party : Party Context) (member : Nat) : Prop := party.skips[member]? = some none

theorem hearers_stand (party : Party Context) : party.hearers.standing.Consistent :=
  consistent_of_visitors _

theorem hearers_noticed_members (party : Party Context) :
    party.hearers.noticed.members = party.members.zipIdx.map fun entry =>
      ⟨(hearer entry.1).noticed entry.2, none⟩ := by
  simp only [hearers, noticed, ofVisitors, List.map_map, List.zipIdx_map]
  rfl

theorem hearers_echo (consistent : party.standing.Consistent) :
    Echoes (.keeping fun given => ∀ notice ∈ given.2, party.hears notice.member) party.depth
      party.noticed party.hearers.noticed := by
  refine ⟨rfl, ?_, party.noticed_stands ▸ consistent,
    party.hearers.noticed_stands ▸ party.hearers_stand⟩
  rw [hearers_noticed_members, noticed]
  rw [List.forall₂_map_left_iff, List.forall₂_map_right_iff, List.forall₂_same]
  rintro ⟨⟨visitor, skip⟩, place⟩ joined
  have found : party.skips[place]? = some skip := by
    rw [skips, List.getElem?_map, List.mem_zipIdx_iff_getElem?.mp joined]
    rfl
  cases skip with
  | none => exact .awake ⟨rfl, Visitor.noticed_respects found⟩
  | some level =>
      have old := (consistent.within level (List.mem_of_getElem? found)).2
      exact .mute old (visitor.deaf_noticed place)

/-- A party that was left somewhere hears what its hearers do when they have just met. -/
theorem hearers_hear (consistent : party.standing.Consistent) (trip : Trip Context) :
    party.notices trip = party.hearers.notices trip ∧
      party.ending trip = party.hearers.ending trip ∧
      ∀ notice ∈ party.notices trip, party.hears notice.member := by
  have heard := tour_tree_echoes _ _ trip.noticed.context trip.noticed.context
    (hearers_echo consistent) ⟨rfl, List.forall_mem_nil _⟩ trip.root.tree
  have endings : party.noticed.ending trip.noticed = party.hearers.noticed.ending trip.noticed :=
    heard.ending
  rw [noticed_ending consistent, noticed_ending party.hearers_stand] at endings
  obtain ⟨same, known⟩ := heard.contexts
  exact ⟨congrArg Prod.snd same, endings, known⟩

end Party
end Notices

section Stateless
variable {Context : Type}

namespace Party

def visitors (party : Party Context) : List (Visitor Context) := party.members.map Member.visitor

theorem visitors_of_visitors (visitors : List (Visitor Context)) :
    (ofVisitors visitors).visitors = visitors := by
  simp [Party.visitors, ofVisitors, Function.comp_def]

section Members
variable {depth silent : Nat} {node : Node} {context : Context} {members : List (Member Context)}

theorem enter_members_visitors (stateless : ∀ member ∈ members, member.visitor.Stateless) :
    (enterMembers depth node silent context members).members.map Member.visitor =
      members.map Member.visitor := by
  induction members generalizing silent context with
  | nil => rfl
  | cons member rest ih =>
      obtain ⟨first, others⟩ := List.forall_mem_cons.mp stateless
      rw [enterMembers]
      split
      · exact congrArg (member.visitor :: ·) (ih others)
      · have same := first.respond context ⟨.entering, node⟩
        rw [Visitor.enter_eq_respond]
        generalize member.visitor.respond context ⟨.entering, node⟩ = result at same ⊢
        rcases result with ⟨⟨visitor, context⟩, fault | _ | _ | _⟩
        · exact congrArg (· :: _) same
        · exact congrArg₂ List.cons same (ih others)
        · exact congrArg₂ List.cons same (ih others)
        · exact congrArg (· :: _) same

theorem leave_members_visitors (stateless : ∀ member ∈ members, member.visitor.Stateless) :
    (leaveMembers node silent context members).members.map Member.visitor =
      members.map Member.visitor := by
  induction members generalizing context with
  | nil => rfl
  | cons member rest ih =>
      obtain ⟨first, others⟩ := List.forall_mem_cons.mp stateless
      rw [leaveMembers]
      split
      · exact congrArg (member.visitor :: ·) (ih others)
      · have same := first.respond context ⟨.leaving, node⟩
        rw [Visitor.leave_eq_respond]
        generalize member.visitor.respond context ⟨.leaving, node⟩ = result at same ⊢
        rcases result with ⟨⟨visitor, context⟩, fault | _ | _ | _⟩
        · exact congrArg (· :: _) same
        · exact congrArg₂ List.cons same (ih others)
        · exact congrArg₂ List.cons same (ih others)
        · exact congrArg (· :: _) same

end Members

variable {party : Party Context}

theorem leave_visitors (stateless : ∀ member ∈ party.members, member.visitor.Stateless)
    (context : Context) (node : Node) :
    (leave (party, context) node).1.1.visitors = party.visitors := by
  have same : (leaveMembers node party.silent context party.members).members.map Member.visitor =
      party.visitors := leave_members_visitors stateless
  simp only [leave]
  generalize leaveMembers node party.silent context party.members = passage at same ⊢
  rcases passage.answer with fault | _ | _ | _
  · exact same
  · exact (depart_visitors party.depth passage).trans same
  · exact same
  · exact same

theorem answer_visitors (stateless : ∀ visitor ∈ party.visitors, visitor.Stateless)
    (context : Context) (event : Event) :
    (guide.answer (party, context) event).1.1.visitors = party.visitors := by
  have stateless : ∀ member ∈ party.members, member.visitor.Stateless := fun member joined =>
    stateless member.visitor (List.mem_map_of_mem joined)
  rcases event with ⟨_ | _, node⟩
  · rw [Guide.answer]
    cases node.flaw? with
    | some flaw => rfl
    | none =>
        rw [Guide.end_after_eq]
        exact enter_members_visitors stateless
  · rw [Guide.answer, Guide.end_after_eq]
    exact leave_visitors stateless context node

theorem follow_visitors (stateless : ∀ visitor ∈ party.visitors, visitor.Stateless)
    (context : Context) (events : List Event) :
    (guide.follow (party, context) events).1.1.visitors = party.visitors := by
  induction events generalizing party context with
  | nil => rfl
  | cons event rest ih =>
      have same := answer_visitors stateless context event
      rw [Guide.follow]
      generalize guide.answer (party, context) event = result at same ⊢
      rcases result with ⟨⟨next, context⟩, _ | _ | _⟩
      · exact (ih (same ▸ stateless) context).trans same
      · exact same
      · exact same

theorem back_visitors (stateless : ∀ visitor ∈ party.visitors, visitor.Stateless)
    (trip : Trip Context) : (party.back trip).visitors = party.visitors := by
  rw [back, Guide.tour_eq_follow _ never_skips]
  exact follow_visitors stateless trip.context trip.root.events

theorem back_from_visitors (stateless : ∀ visitor ∈ party.visitors, visitor.Stateless)
    (trips : List (Trip Context)) : (party.backFrom trips).visitors = party.visitors := by
  induction trips generalizing party with
  | nil => rfl
  | cons trip rest ih =>
      have same := back_visitors stateless trip
      exact (ih (same ▸ stateless)).trans same

/-- The visitors without the callbacks of those that skip. -/
def deafen (skips : List (Option Nat)) (visitors : List (Visitor Context)) :
    List (Visitor Context) :=
  List.zipWith (fun skip visitor => if skip.isSome then visitor.deaf else visitor) skips visitors

theorem hearers_eq (party : Party Context) :
    party.hearers = ofVisitors (deafen party.skips party.visitors) := by
  rw [deafen, skips, visitors, List.zipWith_map, List.zipWith_self]
  rfl

theorem hearers_of_awake (awake : ∀ skip ∈ party.skips, skip = none) :
    party.hearers = ofVisitors party.visitors := by
  refine congrArg ofVisitors (List.map_congr_left fun member joined => ?_)
  have heard : member.skippedAt = none := awake _ (List.mem_map_of_mem joined)
  rw [hearer, heard]
  rfl

/-- After tours that ended anywhere, visitors without states of their own hear on the next tour
what they would hear if they had just met and those who are left skipping had no callbacks. -/
theorem left_skips_are_never_left (visitors : List (Visitor Context))
    (stateless : ∀ visitor ∈ visitors, visitor.Stateless) (trips : List (Trip Context))
    (next : Trip Context) :
    let left := (ofVisitors visitors).backFrom trips
    (left.notices next = (ofVisitors (deafen left.skips visitors)).notices next ∧
        left.ending next = (ofVisitors (deafen left.skips visitors)).ending next) ∧
      (∀ notice ∈ left.notices next, left.skips[notice.member]? = some none) ∧
      ((∀ skip ∈ left.skips, skip = none) →
        left.notices next = (ofVisitors visitors).notices next) := by
  intro left
  have consistent := (back_from_stands (consistent_of_visitors visitors) trips).last
  obtain ⟨same, endings, known⟩ := hearers_hear consistent next
  have kept : left.visitors = visitors := by
    have first := visitors_of_visitors visitors
    exact (back_from_visitors (first.symm ▸ stateless) trips).trans first
  refine ⟨?_, known, fun awake => ?_⟩
  · rw [← kept, ← hearers_eq]
    exact ⟨same, endings⟩
  · rw [← kept, ← hearers_of_awake awake]
    exact same

/-- A tour is stopped inside a selection set that one member skips. Then the same tour again, and
one of a selection set that nobody stops. -/
theorem silence_below_stopped_tour :
    let skipping := (Visitor.named "skipping").skipping .selectionSet
    let stopping := (Visitor.named "stopping").entering .fragmentSpread
      fun state context _ => ⟨state, context, .ok .stop⟩
    let counting := (Visitor.named "counting").leaving .selectionSet
      fun state context _ => ⟨state, context + 1, .ok .proceed⟩
    let visitors : List (Visitor Nat) := [skipping, stopping, counting]
    let stopped : Trip Nat := ⟨0, .selectionSet ⟨.start, [.spread ⟨.start, "A", []⟩]⟩⟩
    let next : Trip Nat := ⟨5, .selectionSet ⟨.start, []⟩⟩
    let left := (ofVisitors visitors).backFrom [stopped]
    let hearing := ofVisitors (deafen left.skips visitors)
    (∀ visitor ∈ visitors, visitor.Stateless) ∧ left.skips = [some 1, none, none] ∧
      left.notices next = hearing.notices next ∧ left.ending next = hearing.ending next ∧
      left.notices next = [⟨2, ⟨.leaving, next.root⟩, 5⟩] := by
  intro skipping stopping counting visitors stopped next left hearing
  have stateless : ∀ visitor ∈ visitors, visitor.Stateless := by
    intro visitor listed
    simp only [visitors, List.mem_cons, List.not_mem_nil, or_false] at listed
    rcases listed with rfl | rfl | rfl <;> exact fun _ _ _ _ _ _ => rfl
  obtain ⟨⟨same, endings⟩, -, -⟩ := left_skips_are_never_left visitors stateless [stopped] next
  have tree : stopped.root.tree =
      .node stopped.root [.node (.selection (.spread ⟨.start, "A", []⟩)) []] := by
    simp [stopped, Node.tree_eq, Node.children, Node.ofSelection]
  have tree' : next.root.tree = .node next.root [] := by
    simp [next, Node.tree_eq, Node.children]
  have skips : left.skips = [some 1, none, none] := by
    simp only [left, backFrom, List.foldl, back, Guide.tour, tree]
    rfl
  have notices : left.notices next = [⟨2, ⟨.leaving, next.root⟩, 5⟩] := by
    simp only [left, backFrom, List.foldl, back, notices, Guide.tour, tree, tree']
    rfl
  exact ⟨stateless, skips, same, endings, notices⟩

theorem second_tour_misses_member :
    let skipping := (Visitor.named "skipping").skipping .selectionSet
    let stopping := (Visitor.named "stopping").entering .fragmentSpread
      fun state context _ => ⟨state, context, .ok .stop⟩
    let visitors : List (Visitor Unit) := [skipping, stopping]
    let party := ofVisitors visitors
    let trip : Trip Unit := ⟨(), .selectionSet ⟨.start, [.spread ⟨.start, "A", []⟩]⟩⟩
    (∀ visitor ∈ visitors, visitor.Stateless) ∧ party.ending trip = .stopped ∧
      (party.notices trip).map Notice.member = [0, 1] ∧
      ((party.back trip).notices trip).map Notice.member = [1] ∧
      (party.back trip).notices trip ≠ party.notices trip := by
  intro skipping stopping visitors party trip
  have stateless : ∀ visitor ∈ visitors, visitor.Stateless := by
    intro visitor listed
    simp only [visitors, List.mem_cons, List.not_mem_nil, or_false] at listed
    rcases listed with rfl | rfl <;> exact fun _ _ _ _ _ _ => rfl
  have tree : trip.root.tree =
      .node trip.root [.node (.selection (.spread ⟨.start, "A", []⟩)) []] := by
    simp [trip, Node.tree_eq, Node.children, Node.ofSelection]
  have ended : party.ending trip = .stopped := by
    simp only [ending, Guide.tour, tree]
    rfl
  have fresh : (party.notices trip).map Notice.member = [0, 1] := by
    simp only [notices, Guide.tour, tree]
    rfl
  have later : ((party.back trip).notices trip).map Notice.member = [1] := by
    simp only [back, notices, Guide.tour, tree]
    rfl
  refine ⟨stateless, ended, fresh, later, fun same => ?_⟩
  rw [same, fresh] at later
  cases later

end Party
end Stateless
end GraphQL
