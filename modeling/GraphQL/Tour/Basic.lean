import GraphQL.Document.Tree

/-! A tour of a document: every node is entered before its children are toured and left
after them. Whoever is guided answers every time how to go on, and keeps what it has
done even when the tour ends early. -/
namespace GraphQL

section Answers

/-- `skip` leaves out the children and the leaving of a node; after a node it means
nothing more than `proceed`. -/
inductive Action where
  | proceed
  | skip
  | stop
deriving DecidableEq

inductive Flaw where
  | noDefinitions
  | nestedNonNull
deriving DecidableEq

def Flaw.message : Flaw → String
  | noDefinitions => "a document must contain at least one definition"
  | nestedNonNull => "a non-null type cannot wrap another non-null type"

inductive Fault where
  | callbackFailed (visitor : String) (kind : NodeKind) (reason : String)
  | malformed (place : Position) (flaw : Flaw)
deriving DecidableEq

def Fault.message : Fault → String
  | callbackFailed visitor kind reason =>
      "visitor `" ++ visitor ++ "` failed on a " ++ kind.name ++ " node: " ++ reason
  | malformed place flaw => "malformed document at " ++ place.text ++ ": " ++ flaw.message

/-- What a fault that is reported in full is followed by. -/
def Fault.causes : Fault → List String
  | callbackFailed _ _ reason => [reason]
  | malformed _ _ => []

inductive Ending where
  | finished
  | stopped
  | fault (fault : Fault)
deriving DecidableEq

end Answers

def Node.flaw? : Node → Option Flaw
  | .document d => if d.definitions.isEmpty then some .noDefinitions else none
  | .type (.nonNull _ (.nonNull _ _)) => some .nestedNonNull
  | _ => none

universe u

structure Guide (State : Type u) where
  enter : State → Node → State × Except Fault Action
  leave : State → Node → State × Except Fault Action

namespace Guide
variable {State : Type u}

def endAfter (result : State × Except Fault Action) : State × Ending :=
  match result.2 with
  | .error fault => (result.1, .fault fault)
  | .ok .stop => (result.1, .stopped)
  | .ok _ => (result.1, .finished)

mutual

def tourTree (guide : Guide State) (state : State) : Tree Node → State × Ending
  | .node node branches =>
      match node.flaw? with
      | some flaw => (state, .fault (.malformed node.position flaw))
      | none =>
          match guide.enter state node with
          | (state, .ok .proceed) =>
              match guide.tourTrees state branches with
              | (state, .finished) => endAfter (guide.leave state node)
              | ended => ended
          | result => endAfter result

def tourTrees (guide : Guide State) (state : State) : List (Tree Node) → State × Ending
  | [] => (state, .finished)
  | tree :: rest =>
      match guide.tourTree state tree with
      | (state, .finished) => guide.tourTrees state rest
      | ended => ended

end

def tour (guide : Guide State) (state : State) (root : Node) : State × Ending :=
  guide.tourTree state root.tree

end Guide
end GraphQL
