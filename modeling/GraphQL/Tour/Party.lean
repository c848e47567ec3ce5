import GraphQL.Tour.Visitor

/-! A party of visitors takes one tour together. At every node the members answer in the
order in which they joined. A member that skips a node hears nothing until the party has
left it, the leaving included; the others see all of what is below. A member that stops
or fails ends the tour for all of them, and the party then stands where it stood. -/
namespace GraphQL

structure Member (Context : Type) where
  visitor : Visitor Context
  skippedAt : Option Nat

/-- `depth` counts the nodes that are entered and not left, and `silent` the members
that skip one of them. -/
structure Party (Context : Type) where
  depth : Nat
  silent : Nat
  members : List (Member Context)

namespace Party
variable {Context : Type}

def ofVisitors (visitors : List (Visitor Context)) : Party Context :=
  ⟨0, 0, visitors.map fun visitor => ⟨visitor, none⟩⟩

def names (party : Party Context) : List String :=
  party.members.map fun member => member.visitor.name

def skips (party : Party Context) : List (Option Nat) :=
  party.members.map Member.skippedAt

section Entering

/-- What the members leave behind at one node. -/
structure Passage (Context : Type) where
  silent : Nat
  members : List (Member Context)
  context : Context
  answer : Except Fault Action

def Passage.after (member : Member Context) (rest : Passage Context) : Passage Context :=
  { rest with members := member :: rest.members }

def enterMembers (depth : Nat) (node : Node) (silent : Nat) (context : Context) :
    List (Member Context) → Passage Context
  | [] => ⟨silent, [], context, .ok .proceed⟩
  | member :: rest =>
      if member.skippedAt.isSome then (enterMembers depth node silent context rest).after member
      else
        match member.visitor.enter context node with
        | ((visitor, context), .ok .proceed) =>
            (enterMembers depth node silent context rest).after ⟨visitor, none⟩
        | ((visitor, context), .ok .skip) =>
            (enterMembers depth node (silent + 1) context rest).after ⟨visitor, some depth⟩
        | ((visitor, context), answer) => ⟨silent, ⟨visitor, none⟩ :: rest, context, answer⟩

def enter (state : Party Context × Context) (node : Node) :
    (Party Context × Context) × Except Fault Action :=
  let depth := state.1.depth + 1
  let passage := enterMembers depth node state.1.silent state.2 state.1.members
  ((⟨depth, passage.silent, passage.members⟩, passage.context), passage.answer)

end Entering

section Leaving

def leaveMembers (node : Node) (silent : Nat) (context : Context) :
    List (Member Context) → Passage Context
  | [] => ⟨silent, [], context, .ok .proceed⟩
  | member :: rest =>
      if member.skippedAt.isSome then (leaveMembers node silent context rest).after member
      else
        match member.visitor.leave context node with
        | ((visitor, context), .ok .stop) =>
            ⟨silent, ⟨visitor, none⟩ :: rest, context, .ok .stop⟩
        | ((visitor, context), .error fault) =>
            ⟨silent, ⟨visitor, none⟩ :: rest, context, .error fault⟩
        | ((visitor, context), .ok _) =>
            (leaveMembers node silent context rest).after ⟨visitor, none⟩

/-- The members that skipped the node at a depth hear again. -/
def wake (depth : Nat) : List (Member Context) → Nat → List (Member Context) × Nat
  | [], silent => ([], silent)
  | member :: rest, silent =>
      if member.skippedAt = some depth then
        let woken := wake depth rest (silent - 1)
        (⟨member.visitor, none⟩ :: woken.1, woken.2)
      else
        let woken := wake depth rest silent
        (member :: woken.1, woken.2)

def depart (depth : Nat) (passage : Passage Context) : Party Context :=
  if passage.silent > 0 then
    let woken := wake depth passage.members passage.silent
    ⟨depth - 1, woken.2, woken.1⟩
  else ⟨depth - 1, passage.silent, passage.members⟩

def leave (state : Party Context × Context) (node : Node) :
    (Party Context × Context) × Except Fault Action :=
  let passage := leaveMembers node state.1.silent state.2 state.1.members
  match passage.answer with
  | .ok .proceed => ((depart state.1.depth passage, passage.context), .ok .proceed)
  | answer => ((⟨state.1.depth, passage.silent, passage.members⟩, passage.context), answer)

end Leaving

def guide : Guide (Party Context × Context) where
  enter := enter
  leave := leave

section Text

def skipText : Option Nat → String
  | none => "None"
  | some depth => "Some(" ++ toString depth ++ ")"

def standText (party : Party Context) : String :=
  "depth: " ++ toString party.depth ++ ", skipping: [" ++
    ", ".intercalate (party.skips.map skipText) ++ "]"

def text (party : Party Context) : String :=
  "ParallelVisitor \x7b visitors: [" ++
    ", ".intercalate (party.members.map fun member => member.visitor.text) ++ "], " ++
    party.standText ++ " \x7d"

end Text

end Party
end GraphQL
