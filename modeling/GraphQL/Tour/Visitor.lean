import GraphQL.Text.Quoted
import GraphQL.Tour.Basic

/-! A visitor answers to nodes of the kinds it has registered for, on entering, on
leaving or on both, and does nothing at others. It keeps a state of its own; what
visitors share is the context. -/
namespace GraphQL

/-- What a callback leaves behind, and its answer or the reason why it failed. -/
structure Reply (State Context : Type) where
  state : State
  context : Context
  answer : Except String Action

abbrev Callback (State Context : Type) := State → Context → Node → Reply State Context

structure Visitor (Context : Type) where
  name : String
  State : Type
  state : State
  onEnter : NodeKind → Option (Callback State Context)
  onLeave : NodeKind → Option (Callback State Context)

namespace Visitor
variable {Context : Type}

section Registration

def withState {State : Type} (name : String) (state : State) : Visitor Context :=
  ⟨name, State, state, fun _ => none, fun _ => none⟩

def named (name : String) : Visitor Context := withState name ()

def register {Handler : Type} (kind : NodeKind) (handler : Handler)
    (table : NodeKind → Option Handler) : NodeKind → Option Handler :=
  fun wanted => if wanted = kind then some handler else table wanted

/-- The last callback that is registered for a kind and a phase counts. -/
def entering (visitor : Visitor Context) (kind : NodeKind)
    (callback : Callback visitor.State Context) : Visitor Context :=
  { visitor with onEnter := register kind callback visitor.onEnter }

def leaving (visitor : Visitor Context) (kind : NodeKind)
    (callback : Callback visitor.State Context) : Visitor Context :=
  { visitor with onLeave := register kind callback visitor.onLeave }

def skipping (visitor : Visitor Context) (kind : NodeKind) : Visitor Context :=
  visitor.entering kind fun state context _ => ⟨state, context, .ok .skip⟩

def entered (visitor : Visitor Context) : List NodeKind :=
  NodeKind.all.filter fun kind => (visitor.onEnter kind).isSome

def left (visitor : Visitor Context) : List NodeKind :=
  NodeKind.all.filter fun kind => (visitor.onLeave kind).isSome

end Registration

section Answering

def answer (name : String) (kind : NodeKind) : Except String Action → Except Fault Action
  | .ok action => .ok action
  | .error reason => .error (.callbackFailed name kind reason)

def call (visitor : Visitor Context) (callback? : Option (Callback visitor.State Context))
    (context : Context) (node : Node) : (Visitor Context × Context) × Except Fault Action :=
  match callback? with
  | none => ((visitor, context), .ok .proceed)
  | some callback =>
      let reply := callback visitor.state context node
      (({ visitor with state := reply.state }, reply.context),
        answer visitor.name node.kind reply.answer)

def enter (visitor : Visitor Context) (context : Context) (node : Node) :
    (Visitor Context × Context) × Except Fault Action :=
  visitor.call (visitor.onEnter node.kind) context node

def leave (visitor : Visitor Context) (context : Context) (node : Node) :
    (Visitor Context × Context) × Except Fault Action :=
  visitor.call (visitor.onLeave node.kind) context node

def guide : Guide (Visitor Context × Context) where
  enter state node := state.1.enter state.2 node
  leave state node := state.1.leave state.2 node

end Answering

def kindsText (kinds : List NodeKind) : String :=
  "[" ++ ", ".intercalate (kinds.map NodeKind.name) ++ "]"

def text (visitor : Visitor Context) : String :=
  "Visitor \x7b name: " ++ Quoted.quote visitor.name ++ ", enter: " ++ kindsText visitor.entered ++
    ", leave: " ++ kindsText visitor.left ++ " \x7d"

end Visitor
end GraphQL
