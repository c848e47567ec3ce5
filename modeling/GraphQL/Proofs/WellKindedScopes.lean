import GraphQL.Proofs.Events
import GraphQL.Proofs.WellFormedTypes
import GraphQL.Validation.Scope

/-! What a scope may say. Nodes are entered and left in any order here, also where one is
left that was not entered, so an entry that was pushed once may come to the top again
much later. Each entry of the stacks must therefore be of the right kind, not just the
last one, and this is so because nothing is pushed that was not looked up in the schema. -/
namespace GraphQL

section Origins

/-- The field is defined by an object type or an interface type. -/
def Schema.DefinesField (schema : Schema) (field : OutputField) : Prop :=
  ∃ owner : FieldsType, (.object owner ∈ schema.types ∨ .interface owner ∈ schema.types) ∧
    field ∈ owner.fields

/-- The parameter is one of a field or of a directive. -/
def Schema.DeclaresParameter (schema : Schema) (parameter : InputValue) : Prop :=
  (∃ field, schema.DefinesField field ∧ parameter ∈ field.parameters) ∨
    ∃ directive ∈ schema.directives, parameter ∈ directive.parameters

variable {schema : Schema}

theorem defines_of_fields {type : SchemaType} (member : type ∈ schema.types) {field : OutputField}
    (own : field ∈ type.fields) : schema.DefinesField field := by
  cases type with
  | object owner => exact ⟨owner, .inl member, own⟩
  | interface owner => exact ⟨owner, .inr member, own⟩
  | _ => cases own

end Origins

namespace Scope
variable {schema : Schema} {scope : Scope}

section Resolution

theorem is_output_iff_refers (type : TypeExpr) :
    isOutput schema type = true ↔ Refers schema.types SchemaType.GivesOutput type := by
  rw [isOutput, Option.any_eq_true, Refers]
  simp only [SchemaType.is_output_iff]
  rfl

theorem is_input_iff_refers (type : TypeExpr) :
    isInput schema type = true ↔ Refers schema.types SchemaType.TakesInput type := by
  rw [isInput, Option.any_eq_true, Refers]
  simp only [SchemaType.is_input_iff]
  rfl

theorem filtered_output {type? : Option TypeExpr} {type : TypeExpr}
    (passed : type?.filter (isOutput schema) = some type) :
    Refers schema.types SchemaType.GivesOutput type :=
  (is_output_iff_refers type).mp (Option.filter_eq_some_iff.mp passed).2

theorem filtered_input {type? : Option TypeExpr} {type : TypeExpr}
    (passed : type?.filter (isInput schema) = some type) :
    Refers schema.types SchemaType.TakesInput type :=
  (is_input_iff_refers type).mp (Option.filter_eq_some_iff.mp passed).2

theorem root_type_output {kind : OperationKind} {type : TypeExpr}
    (root : rootType schema kind = some type) :
    Refers schema.types SchemaType.GivesOutput type := by
  -- A root type is pushed without a test, but it was looked up as an object type.
  obtain ⟨object, found, rfl⟩ := Option.map_eq_some_iff.mp root
  obtain ⟨name, _, found⟩ := Option.bind_eq_some_iff.mp found
  have typed : schema.type? name = some (.object object) := Schema.object_some_iff.mp found
  have named : object.name = name := Named.name_of_find? typed
  exact ⟨.object object, named ▸ typed, trivial⟩

theorem inline_type_output {condition? : Option NamedType} {type : TypeExpr}
    (known : scope.inlineType schema condition? = some type) :
    Refers schema.types SchemaType.GivesOutput type := by
  cases condition? with
  | none => exact filtered_output known
  | some condition =>
      rw [inlineType, conditionType] at known
      exact filtered_output known

theorem composite_of_member {type : TypeExpr} {parent : SchemaType}
    (resolved : compositeOf schema type = some parent) :
    parent ∈ schema.types ∧ parent.isComposite = true := by
  obtain ⟨found, composite⟩ := Option.filter_eq_some_iff.mp resolved
  exact ⟨Named.mem_of_find? found, composite⟩

theorem lookup_field_defined {parent : SchemaType} (member : parent ∈ schema.types) {name : String}
    {field : OutputField} (found : lookupField parent name = some field) :
    field = typenameField ∨ schema.DefinesField field := by
  rw [lookupField] at found
  split at found
  · cases found
    exact .inl rfl
  · exact .inr (defines_of_fields member (Named.mem_of_find? found))

end Resolution

section Stacks
variable {α : Type} {Holds : α → Prop} {stack : List (Option α)}

/-- Whatever is known in some entry of the stack. -/
def Entries (Holds : α → Prop) (stack : List (Option α)) : Prop :=
  ∀ entry, some entry ∈ stack → Holds entry

theorem Entries.push (entries : Entries Holds stack) {pushed : Option α}
    (new : ∀ entry, pushed = some entry → Holds entry) : Entries Holds (pushed :: stack) := by
  intro entry member
  rcases List.mem_cons.mp member with same | below
  · exact new entry same.symm
  · exact entries entry below

theorem Entries.pop (entries : Entries Holds stack) : Entries Holds stack.tail :=
  fun entry member => entries entry (List.mem_of_mem_tail member)

theorem Entries.top (entries : Entries Holds stack) {entry : α} (known : top stack = some entry) :
    Holds entry := by
  cases stack with
  | nil => cases known
  | cons first below => exact entries entry (List.mem_cons.mpr (.inl known.symm))

end Stacks

section Invariant

/-- Every entry comes from the schema and is of the kind that its stack is for. -/
structure WellKinded (schema : Schema) (scope : Scope) : Prop where
  types : Entries (Refers schema.types SchemaType.GivesOutput) scope.types
  parents : Entries (fun parent => parent ∈ schema.types ∧ parent.isComposite = true) scope.parents
  inputs : Entries (Refers schema.types SchemaType.TakesInput) scope.inputs
  fields : Entries (fun field => field = typenameField ∨ schema.DefinesField field) scope.fields
  directive : ∀ directive, scope.directive? = some directive → directive ∈ schema.directives
  argument : ∀ argument, scope.argument? = some argument → schema.DeclaresParameter argument

theorem empty_well_kinded (schema : Schema) : empty.WellKinded schema :=
  ⟨nofun, nofun, nofun, nofun, nofun, nofun⟩

namespace WellKinded
variable (kinded : scope.WellKinded schema)
include kinded

theorem push_type {pushed : Option TypeExpr}
    (new : ∀ type, pushed = some type → Refers schema.types SchemaType.GivesOutput type) :
    (scope.pushType pushed).WellKinded schema :=
  { kinded with types := kinded.types.push new }

theorem push_input {pushed : Option TypeExpr}
    (new : ∀ type, pushed = some type → Refers schema.types SchemaType.TakesInput type) :
    (scope.pushInput pushed).WellKinded schema :=
  { kinded with inputs := kinded.inputs.push new }

theorem pop_type : scope.popType.WellKinded schema :=
  { kinded with types := kinded.types.pop }

theorem pop_input : scope.popInput.WellKinded schema :=
  { kinded with inputs := kinded.inputs.pop }

/-- The parent of the selections in a set was looked up, and it is a composite type. -/
theorem enter_selection_set :
    (scope.pushParent (scope.type?.bind (compositeOf schema))).WellKinded schema :=
  { kinded with
    parents := kinded.parents.push fun _ resolved => by
      obtain ⟨_, _, composite⟩ := Option.bind_eq_some_iff.mp resolved
      exact composite_of_member composite }

theorem enter_field (name : String) : (scope.enterField schema name).WellKinded schema := by
  apply push_type
  · refine { kinded with fields := kinded.fields.push fun field found => ?_ }
    obtain ⟨parent, known, found⟩ := Option.bind_eq_some_iff.mp found
    exact lookup_field_defined (kinded.parents.top known).1 found
  · exact fun _ passed => filtered_output passed

/-- The parameter is one of the enclosing directive, or one of the enclosing field, which is
not the field that is built in as that has no parameters. -/
theorem parameter_declared {name : String} {argument : InputValue}
    (found : scope.parameter name = some argument) : schema.DeclaresParameter argument := by
  rw [parameter] at found
  split at found
  · next directive known =>
    exact .inr ⟨directive, kinded.directive directive known, Named.mem_of_find? found⟩
  · obtain ⟨field, known, found⟩ := Option.bind_eq_some_iff.mp found
    rcases kinded.fields.top known with rfl | defined
    · cases found
    · exact .inl ⟨field, defined, Named.mem_of_find? found⟩

theorem enter_argument (name : String) : (scope.enterArgument schema name).WellKinded schema := by
  apply push_input
  · exact { kinded with argument := fun _ found => kinded.parameter_declared found }
  · exact fun _ passed => filtered_input passed

theorem enter (node : Node) : (scope.enter schema node).WellKinded schema := by
  -- What is pushed is tested or comes from a table; what is below it was there before.
  unfold Scope.enter
  split
  · exact kinded.enter_selection_set
  · exact kinded.enter_field _
  · exact kinded.push_type fun _ known => inline_type_output known
  · exact { kinded with directive := fun _ found => Named.mem_of_find? found }
  · exact kinded.push_type fun _ root => root_type_output root
  · exact kinded.push_type fun _ passed => filtered_output passed
  · exact kinded.push_input fun _ passed => filtered_input passed
  · exact kinded.enter_argument _
  · exact kinded.push_input fun _ passed => filtered_input passed
  · exact kinded.push_input fun _ passed => filtered_input passed
  · exact kinded

theorem leave (node : Node) : (scope.leave node).WellKinded schema := by
  unfold Scope.leave
  split
  · exact { kinded with parents := kinded.parents.pop }
  · exact { kinded with types := kinded.types.pop, fields := kinded.fields.pop }
  · exact kinded.pop_type
  · exact { kinded with directive := nofun }
  · exact kinded.pop_type
  · exact kinded.pop_type
  · exact kinded.pop_input
  · exact { kinded with inputs := kinded.inputs.pop, argument := nofun }
  · exact kinded.pop_input
  · exact kinded.pop_input
  · exact kinded

end WellKinded
end Invariant

section Runs

/-- One call, of whatever node. -/
def step (schema : Schema) (scope : Scope) : Event → Scope
  | ⟨.entering, node⟩ => scope.enter schema node
  | ⟨.leaving, node⟩ => scope.leave node

/-- The scope after some calls, starting with the empty one. -/
def after (schema : Schema) (calls : List Event) : Scope := calls.foldl (step schema) empty

theorem WellKinded.run (kinded : scope.WellKinded schema) (calls : List Event) :
    (calls.foldl (step schema) scope).WellKinded schema := by
  induction calls generalizing scope with
  | nil => exact kinded
  | cons call rest ih =>
      rcases call with ⟨_ | _, node⟩
      · exact ih (kinded.enter node)
      · exact ih (kinded.leave node)

/-- However nodes are entered and left, the types that a scope gives for what is selected are
defined and can be the types of fields, and those that it gives for values are defined
and can be the types of parameters. The parent is a composite type, the field is the one
that is built in or one of an object or interface type, and the argument is a parameter of
such a field or of a directive. -/
theorem scopes_are_well_kinded (schema : Schema) (calls : List Event) :
    let scope := after schema calls
    (∀ type, scope.type? = some type → Refers schema.types SchemaType.GivesOutput type) ∧
      (∀ type, scope.input? = some type → Refers schema.types SchemaType.TakesInput type) ∧
      (∀ type, scope.parentInput? = some type →
        Refers schema.types SchemaType.TakesInput type) ∧
      (∀ parent, scope.parent? = some parent →
        parent ∈ schema.types ∧ parent.isComposite = true) ∧
      (∀ field, scope.field? = some field →
        field = typenameField ∨ schema.DefinesField field) ∧
      ∀ argument, scope.argument? = some argument → schema.DeclaresParameter argument := by
  intro scope
  have kinded : scope.WellKinded schema := (empty_well_kinded schema).run calls
  exact ⟨fun _ => kinded.types.top, fun _ => kinded.inputs.top, fun _ => kinded.inputs.pop.top,
    fun _ => kinded.parents.top, fun _ => kinded.fields.top, kinded.argument⟩

/-- An operation that is left before its selections are, and a field in them. -/
example :
    let field : OutputField := ⟨.builtin, none, "id", [], .named "ID" false⟩
    let query : FieldsType := ⟨.builtin, none, "Query", [], [field]⟩
    let schema : Schema := ⟨builtinTypes ++ [.object query], [], [], "Query", none, none⟩
    let set : SelectionSet := ⟨.start, []⟩
    let operation : Node := .definition (.operation ⟨.start, .query, none, [], [], set⟩)
    let scope := after schema [⟨.entering, operation⟩, ⟨.entering, .selectionSet set⟩,
      ⟨.leaving, operation⟩, ⟨.entering, .selection (.field ⟨.start, none, "id", [], [], none⟩)⟩]
    scope.parent? = some (.object query) ∧ scope.field? = some field ∧
      scope.type? = some (.named "ID" false) :=
  ⟨rfl, rfl, rfl⟩

end Runs
end Scope
end GraphQL
