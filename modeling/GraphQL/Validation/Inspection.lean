import GraphQL.Document.Spreads
import GraphQL.Tour.Party
import GraphQL.Validation.Finding
import GraphQL.Validation.Scope

/-! An inspection of a document is what its rules share: the schema, the document, what
is known about types at the current node, and the findings so far. With a limit, the
finding that would exceed it is dropped and the inspection is over. -/
namespace GraphQL

structure Inspection where
  schema : Schema
  document : Document
  limit? : Option Nat
  scope : Scope
  findings : List Finding
  exceeded : Bool

namespace Inspection

def start (schema : Schema) (document : Document) (limit? : Option Nat) : Inspection :=
  ⟨schema, document, limit?, .empty, [], false⟩

section Reporting

def isFull (inspection : Inspection) : Bool :=
  inspection.limit?.any fun limit => limit ≤ inspection.findings.length

def report (finding : Finding) (inspection : Inspection) : Inspection :=
  if inspection.isFull then { inspection with exceeded := true }
  else { inspection with findings := inspection.findings ++ [finding] }

def reportAll (findings : List Finding) (inspection : Inspection) : Inspection :=
  findings.foldl (fun inspection finding => inspection.report finding) inspection

def limitNotice : Finding :=
  ⟨"Too many validation errors, error limit reached. Validation aborted.", [], []⟩

/-- The findings in the order in which they were reported. -/
def outcome (inspection : Inspection) : List Finding :=
  if inspection.exceeded then inspection.findings ++ [limitNotice] else inspection.findings

end Reporting

section Scoping

def enterNode (inspection : Inspection) (node : Node) : Inspection :=
  { inspection with scope := inspection.scope.enter inspection.schema node }

def leaveNode (inspection : Inspection) (node : Node) : Inspection :=
  { inspection with scope := inspection.scope.leave node }

/-- Stops a tour that has exceeded the limit. -/
def halt (inspection : Inspection) (action : Action) : Action :=
  if inspection.exceeded then .stop else action

universe u
variable {Inner : Type u}

/-- Keeps the scope in step with a tour: a node is in scope while the inner guide enters
it and while the inner guide leaves it. A node that is skipped will not be left. -/
def tracked (inner : Guide (Inner × Inspection)) : Guide (Inner × Inspection) where
  enter state node :=
    match inner.enter (state.1, state.2.enterNode node) node with
    | (state, .error fault) => (state, .error fault)
    | (state, .ok .skip) => ((state.1, state.2.leaveNode node), .ok (state.2.halt .skip))
    | (state, .ok action) => (state, .ok (state.2.halt action))
  leave state node :=
    match inner.leave state node with
    | (state, .error fault) => (state, .error fault)
    | (state, .ok action) => ((state.1, state.2.leaveNode node), .ok (state.2.halt action))

end Scoping

section Rules

/-- A rule is a visitor of an inspection in its first state. -/
abbrev Rule := Visitor Inspection

/-- A callback that never changes the course of the tour. -/
def observing {State : Type} (observe : Inspection → Node → Inspection) :
    Callback State Inspection :=
  fun state inspection node => ⟨state, observe inspection node, .ok .proceed⟩

def inspect (inspection : Inspection) (rules : List Rule) : Inspection × Ending :=
  match (tracked Party.guide).tour (Party.ofVisitors rules, inspection)
      (.document inspection.document) with
  | ((_, inspection), ending) => (inspection, ending)

end Rules

end Inspection
end GraphQL
