import GraphQL.Schema.Draft

/-! What holds of every schema that is built from a draft: the built-in types are there
before all others, and the types of fields are defined and can be the types of fields. -/
namespace GraphQL

section Loading
variable {Failure : Type}

theorem bind_ok {α β : Type} {first : Except Failure α} {next : α → Except Failure β}
    {result : β} (bound : first >>= next = .ok result) :
    ∃ value, first = .ok value ∧ next value = .ok result := by
  cases first with
  | error failure => cases bound
  | ok value => exact ⟨value, rfl, bound⟩

theorem exists_of_is_ok {α : Type} {result : Except Failure α} (ok : result.isOk = true) :
    ∃ value, result = .ok value := by
  cases result with
  | error failure => cases ok
  | ok value => exact ⟨value, rfl⟩

/-- What each step of a fold keeps, the whole fold keeps. -/
theorem fold_keeps {State Item : Type} {keeps : State → State → Prop}
    {step : State → Item → Except Failure State} (refl : ∀ state, keeps state state)
    (trans : ∀ a b c, keeps a b → keeps b c → keeps a c)
    (each : ∀ state item next, step state item = .ok next → keeps state next)
    (items : List Item) {state next : State} (folded : items.foldlM step state = .ok next) :
    keeps state next := by
  induction items generalizing state with
  | nil =>
      cases folded
      exact refl _
  | cons item rest ih =>
      rw [List.foldlM_cons] at folded
      obtain ⟨middle, stepped, later⟩ := bind_ok folded
      exact trans _ _ _ (each state item middle stepped) (ih later)

namespace Draft

/-- The types of a draft are never taken back or put in another order. -/
def Extends (draft next : Draft) : Prop := draft.types <+: next.types

theorem extends_refl (draft : Draft) : draft.Extends draft := List.prefix_refl _

theorem extends_trans (a b c : Draft) (first : a.Extends b) (second : b.Extends c) :
    a.Extends c := List.IsPrefix.trans first second

theorem add_type_extends {draft next : Draft} {type : SchemaType} {place : Position}
    (added : draft.addType type place = .ok next) : draft.Extends next := by
  rw [addType] at added
  split at added
  · cases added
  · split at added
    · cases added
    · cases added
      exact List.prefix_append _ _

theorem add_root_extends (draft : Draft) (root : RootTypeDefinition) (next : Draft)
    (added : draft.addRoot root = .ok next) : draft.Extends next := by
  rw [addRoot] at added
  split at added
  · cases added
  · cases added
    exact extends_refl draft

theorem add_extends (draft : Draft) (definition : Definition) (next : Draft)
    (added : draft.add definition = .ok next) : draft.Extends next := by
  cases definition with
  | operation d => cases added
  | fragment d => cases added
  | schema d =>
      simp only [add, addSchema] at added
      split at added
      · cases added
      · have rooted : Extends { draft with schemaPlace? := some d.position } next :=
          fold_keeps extends_refl extends_trans add_root_extends d.rootTypes added
        exact rooted
  | directive d =>
      simp only [add, addDirective] at added
      split at added
      · cases added
      · cases added
        exact extends_refl draft
  | scalar d => exact add_type_extends added
  | enum d => exact add_type_extends added
  | object d | interface d | union d | input d =>
      obtain ⟨type, _, added⟩ := bind_ok added
      exact add_type_extends added

theorem load_extends (draft : Draft) (document : Document) (next : Draft)
    (loaded : draft.load document = .ok next) : draft.Extends next :=
  fold_keeps extends_refl extends_trans add_extends document.definitions loaded

theorem build_ok {draft : Draft} {schema : Schema} (built : draft.build = .ok schema) :
    schema.types = draft.types ∧ schemaFlaws draft.types schema.directives = [] := by
  simp only [build] at built
  split at built
  · next flawless =>
    obtain ⟨query, _, built⟩ := bind_ok built
    cases query with
    | none => cases built
    | some query =>
        obtain ⟨mutation, _, built⟩ := bind_ok built
        obtain ⟨subscription, _, built⟩ := bind_ok built
        cases built
        exact ⟨rfl, flawless⟩
  · cases built

end Draft
end Loading

section Built

/-- The schema is built from documents that were loaded one after the other. -/
def Schema.Built (schema : Schema) : Prop :=
  ∃ (documents : List Document) (draft : Draft),
    documents.foldlM Draft.load Draft.empty = .ok draft ∧ draft.build = .ok schema

variable {schema : Schema}

theorem Schema.Built.builtins (built : schema.Built) : builtinTypes <+: schema.types := by
  obtain ⟨documents, draft, loaded, built⟩ := built
  rw [(Draft.build_ok built).1]
  exact fold_keeps Draft.extends_refl Draft.extends_trans Draft.load_extends documents loaded

theorem Schema.Built.string (built : schema.Built) :
    schema.type? "String" = some (.builtin .string) := by
  obtain ⟨more, types⟩ := built.builtins
  rw [Schema.type?, ← types]
  rfl

theorem field_of_flawless {types : List SchemaType} {parent : String} {field : OutputField}
    (flawless : fieldFlaws types parent field = []) :
    ∃ type, Named.find? field.type.innermostName types = some type ∧ type.isOutput = true := by
  have core := (List.append_eq_nil_iff.mp flawless).2
  rw [typeFlaws] at core
  split at core
  · cases core
  · next type found =>
    refine ⟨type, found, ?_⟩
    cases output : type.isOutput with
    | true => rfl
    | false =>
        rw [output, if_neg Bool.false_ne_true] at core
        cases core

/-- The type of a field is defined, and is not an input object type. -/
theorem Schema.Built.field (built : schema.Built) {type : SchemaType}
    (member : type ∈ schema.types) {field : OutputField} (own : field ∈ type.fields) :
    ∃ core, schema.innermost? field.type = some core ∧ core.isOutput = true := by
  obtain ⟨documents, draft, _, built⟩ := built
  obtain ⟨types, flawless⟩ := Draft.build_ok built
  -- No schema is built from types that have a flaw.
  have sound := (List.append_eq_nil_iff.mp flawless).1
  have each := List.flatMap_eq_nil_iff.mp sound type (types ▸ member)
  rw [Schema.innermost?, Schema.type?, types]
  cases type with
  | object t | interface t =>
      have fields := (List.append_eq_nil_iff.mp each).1
      exact field_of_flawless (List.flatMap_eq_nil_iff.mp fields field own)
  | builtin _ | scalar _ | union _ | enum _ | input _ => cases own

end Built
end GraphQL
