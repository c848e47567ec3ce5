import GraphQL.Proofs.Tracking

/-! The stacks of a scope along a tour. What is pushed when a node is entered is popped
when it is left, and nothing below the node is left on the stacks in between, so what is
known at a node depends on the nodes around it only. -/
namespace GraphQL

namespace Scope

section Agreement

/-- The same is known about types, parents and fields. -/
structure Agrees (a b : Scope) : Prop where
  types : a.types = b.types
  parents : a.parents = b.parents
  fields : a.fields = b.fields

variable {a b c : Scope}

theorem Agrees.refl (a : Scope) : a.Agrees a := ⟨rfl, rfl, rfl⟩

theorem Agrees.symm (agrees : a.Agrees b) : b.Agrees a :=
  ⟨agrees.types.symm, agrees.parents.symm, agrees.fields.symm⟩

theorem Agrees.trans (first : a.Agrees b) (second : b.Agrees c) : a.Agrees c :=
  ⟨first.types.trans second.types, first.parents.trans second.parents,
    first.fields.trans second.fields⟩

theorem Agrees.type (agrees : a.Agrees b) : a.type? = b.type? := by rw [type?, type?, agrees.types]

theorem Agrees.parent (agrees : a.Agrees b) : a.parent? = b.parent? := by
  rw [parent?, parent?, agrees.parents]

theorem Agrees.field (agrees : a.Agrees b) : a.field? = b.field? := by
  rw [field?, field?, agrees.fields]

theorem Agrees.push_type (agrees : a.Agrees b) (type : Option TypeExpr) :
    (a.pushType type).Agrees (b.pushType type) :=
  ⟨congrArg (type :: ·) agrees.types, agrees.parents, agrees.fields⟩

theorem Agrees.enter (agrees : a.Agrees b) (schema : Schema) (node : Node) :
    (a.enter schema node).Agrees (b.enter schema node) := by
  unfold Scope.enter
  split
  · rw [agrees.type]
    exact ⟨agrees.types, congrArg (_ :: ·) agrees.parents, agrees.fields⟩
  · simp only [enterField, fieldDefinition, agrees.parent]
    exact ⟨congrArg (_ :: ·) agrees.types, agrees.parents, congrArg (_ :: ·) agrees.fields⟩
  · simp only [inlineType, agrees.type]
    exact agrees.push_type _
  · exact ⟨agrees.types, agrees.parents, agrees.fields⟩
  · exact agrees.push_type _
  · exact agrees.push_type _
  all_goals exact ⟨agrees.types, agrees.parents, agrees.fields⟩

theorem Agrees.leave (agrees : a.Agrees b) (node : Node) :
    (a.leave node).Agrees (b.leave node) := by
  unfold Scope.leave
  split
  · exact ⟨agrees.types, congrArg List.tail agrees.parents, agrees.fields⟩
  · exact ⟨congrArg List.tail agrees.types, agrees.parents, congrArg List.tail agrees.fields⟩
  · exact ⟨congrArg List.tail agrees.types, agrees.parents, agrees.fields⟩
  · exact ⟨agrees.types, agrees.parents, agrees.fields⟩
  · exact ⟨congrArg List.tail agrees.types, agrees.parents, agrees.fields⟩
  · exact ⟨congrArg List.tail agrees.types, agrees.parents, agrees.fields⟩
  all_goals exact ⟨agrees.types, agrees.parents, agrees.fields⟩

/-- What a node pushes it pops again. -/
theorem leave_enter (schema : Schema) (scope : Scope) (node : Node) :
    ((scope.enter schema node).leave node).Agrees scope := by
  rcases node with d | d | d | s | s | a | v | f | d | t | d | d | d | d
  case definition => cases d <;> exact ⟨rfl, rfl, rfl⟩
  case selection => cases s <;> exact ⟨rfl, rfl, rfl⟩
  case value =>
    rcases v with ⟨_, form⟩
    cases form <;> exact ⟨rfl, rfl, rfl⟩
  all_goals exact ⟨rfl, rfl, rfl⟩

end Agreement
end Scope

namespace Inspection.View

section Agreement

/-- The same schema and document, and scopes that agree. -/
structure Agrees (a b : View) : Prop where
  schema : a.schema = b.schema
  document : a.document = b.document
  scope : a.scope.Agrees b.scope

variable {a b c : View}

theorem Agrees.refl (a : View) : a.Agrees a := ⟨rfl, rfl, .refl _⟩

theorem Agrees.symm (agrees : a.Agrees b) : b.Agrees a :=
  ⟨agrees.schema.symm, agrees.document.symm, agrees.scope.symm⟩

theorem Agrees.trans (first : a.Agrees b) (second : b.Agrees c) : a.Agrees c :=
  ⟨first.schema.trans second.schema, first.document.trans second.document,
    first.scope.trans second.scope⟩

theorem Agrees.during (agrees : a.Agrees b) (event : Event) :
    (a.during event).Agrees (b.during event) := by
  rcases event with ⟨_ | _, node⟩
  · refine ⟨agrees.schema, agrees.document, ?_⟩
    simp only [View.during, agrees.schema]
    exact agrees.scope.enter b.schema node
  · exact agrees

theorem Agrees.beyond (agrees : a.Agrees b) (event : Event) :
    (a.beyond event).Agrees (b.beyond event) := by
  rcases event with ⟨_ | _, node⟩
  · exact agrees
  · exact ⟨agrees.schema, agrees.document, agrees.scope.leave node⟩

end Agreement

section Passing

/-- What is seen when some events are over. -/
def passed (view : View) : List Event → View
  | [] => view
  | event :: rest => ((view.during event).beyond event).passed rest

theorem passed_append (view : View) (events more : List Event) :
    view.passed (events ++ more) = (view.passed events).passed more := by
  induction events generalizing view with
  | nil => rfl
  | cons event rest ih => exact ih _

theorem along_append (view : View) (events more : List Event) :
    view.along (events ++ more) = view.along events ++ (view.passed events).along more := by
  induction events generalizing view with
  | nil => rfl
  | cons event rest ih => exact congrArg (_ :: ·) (ih _)

theorem Agrees.passed {a b : View} (agrees : a.Agrees b) (events : List Event) :
    (a.passed events).Agrees (b.passed events) := by
  induction events generalizing a b with
  | nil => exact agrees
  | cons event rest ih => exact ih ((agrees.during event).beyond event)

theorem passed_nodes (nodes : List Node)
    (each : ∀ node ∈ nodes, ∀ view : View, (view.passed node.events).Agrees view) (view : View) :
    (view.passed (nodes.flatMap Node.events)).Agrees view := by
  induction nodes generalizing view with
  | nil => exact .refl view
  | cons node rest ih =>
      rw [List.flatMap_cons, passed_append]
      have later := ih (fun other member => each other (List.mem_cons_of_mem _ member))
        (view.passed node.events)
      exact later.trans (each node List.mem_cons_self view)

/-- After a node nothing of it is left. -/
theorem passed_node (node : Node) (view : View) : (view.passed node.events).Agrees view := by
  induction node using Node.below_induction generalizing view with
  | step node ih =>
      -- The children leave behind what was there when the node was entered.
      have below := passed_nodes node.children (fun child member view => ih child member view)
        (view.during ⟨.entering, node⟩)
      rw [Node.events_eq, passed, passed_append]
      have left := (below.during ⟨.leaving, node⟩).beyond ⟨.leaving, node⟩
      exact left.trans ⟨rfl, rfl, Scope.leave_enter view.schema view.scope node⟩

end Passing

/-! A condition on nodes and what is seen there holds at all nodes that a tour enters if it
holds at the root and, with the root in scope, below each child. -/
section Everywhere
variable {Holds : View → Node → Prop}

def Respects (Holds : View → Node → Prop) : Prop :=
  ∀ a b node, a.Agrees b → Holds a node → Holds b node

def Always (Holds : View → Node → Prop) (view : View) (events : List Event) : Prop :=
  ∀ entry ∈ view.along events, entry.2.phase = .entering → Holds entry.1 entry.2.node

theorem always_append (view : View) (events more : List Event) :
    Always Holds view (events ++ more) ↔
      Always Holds view events ∧ Always Holds (view.passed events) more := by
  rw [Always, along_append, List.forall_mem_append]
  rfl

theorem Agrees.always {a b : View} (agrees : a.Agrees b) (respects : Respects Holds)
    (events : List Event) (always : Always Holds a events) : Always Holds b events := by
  induction events generalizing a b with
  | nil => exact fun _ member => absurd member List.not_mem_nil
  | cons event rest ih =>
      obtain ⟨first, later⟩ := List.forall_mem_cons.mp always
      refine List.forall_mem_cons.mpr ⟨fun entering => ?_, ?_⟩
      · exact respects _ _ _ (agrees.during event) (first entering)
      · exact ih ((agrees.during event).beyond event) later

theorem Agrees.always_iff {a b : View} (agrees : a.Agrees b) (respects : Respects Holds)
    (events : List Event) : Always Holds a events ↔ Always Holds b events :=
  ⟨agrees.always respects events, agrees.symm.always respects events⟩

theorem always_nodes (respects : Respects Holds) (nodes : List Node) (view : View) :
    Always Holds view (nodes.flatMap Node.events) ↔
      ∀ node ∈ nodes, Always Holds view node.events := by
  induction nodes with
  | nil =>
      exact ⟨fun _ _ member => absurd member List.not_mem_nil,
        fun _ _ member => absurd member List.not_mem_nil⟩
  | cons node rest ih =>
      rw [List.flatMap_cons, always_append, List.forall_mem_cons, ← ih,
        (passed_node node view).always_iff respects]

theorem always_node (respects : Respects Holds) (node : Node) (view : View) :
    Always Holds view node.events ↔
      Holds (view.during ⟨.entering, node⟩) node ∧
        ∀ child ∈ node.children, Always Holds (view.during ⟨.entering, node⟩) child.events := by
  rw [Node.events_eq, ← always_nodes respects]
  constructor
  · intro always
    obtain ⟨first, later⟩ := List.forall_mem_cons.mp always
    exact ⟨first rfl, ((always_append _ _ _).mp later).1⟩
  · rintro ⟨first, below⟩
    refine List.forall_mem_cons.mpr ⟨fun _ => first, (always_append _ _ _).mpr ⟨below, ?_⟩⟩
    intro entry member entering
    rw [List.mem_singleton.mp member] at entering
    cases entering

end Everywhere
end Inspection.View
end GraphQL
