import GraphQL.Proofs.BuiltSchemas
import GraphQL.Proofs.DistinctNames

/-! What a draft holds after definitions were loaded. Every definition contributes one
thing of its own, whatever was loaded before it: a type, a directive, or the names of the
root types. What was loaded before only decides whether that is accepted, and where
documents end makes no difference. -/
namespace GraphQL

section Contributions

/-- What a definition adds to a draft. -/
inductive Contribution where
  | type (type : SchemaType) (place : Position)
  | directive (rule : DirectiveRule)
  | schema (definition : SchemaDefinition)

namespace Contribution

def type? : Contribution → Option SchemaType
  | type t _ => some t
  | _ => none

def directive? : Contribution → Option DirectiveRule
  | directive rule => some rule
  | _ => none

def schema? : Contribution → Option SchemaDefinition
  | schema d => some d
  | _ => none

end Contribution

namespace Definition

def contribution : Definition → Except SchemaError Contribution
  | operation d => .error (.executableDefinition d.position)
  | fragment d => .error (.executableDefinition d.position)
  | schema d => .ok (.schema d)
  | directive d => .ok (.directive (.ofDefinition d))
  | scalar d => .ok (.type (.scalar (.ofDefinition d)) d.position)
  | enum d => .ok (.type (.enum (.ofDefinition d)) d.position)
  | object d => do return .type (.object (← Draft.fieldsType d)) d.position
  | interface d => do return .type (.interface (← Draft.fieldsType d)) d.position
  | union d => do return .type (.union (← Draft.unionType d)) d.position
  | input d => do return .type (.input (← Draft.inputType d)) d.position

def contributions (definitions : List Definition) : List Contribution :=
  definitions.filterMap fun d => d.contribution.toOption

theorem mem_contributions {definitions : List Definition} {contribution : Contribution} :
    contribution ∈ contributions definitions ↔
      ∃ d ∈ definitions, d.contribution = .ok contribution := by
  rw [contributions, List.mem_filterMap]
  apply exists_congr
  intro d
  cases d.contribution with
  | error failure => simp [Except.toOption]
  | ok value => simp [Except.toOption]

end Definition

namespace Draft

def contribute (draft : Draft) : Contribution → Except SchemaError Draft
  | .type type place => draft.addType type place
  | .directive rule => draft.addDirective rule
  | .schema d => draft.addSchema d

theorem add_eq (draft : Draft) (definition : Definition) :
    draft.add definition = definition.contribution >>= draft.contribute := by
  cases definition with
  | object d | interface d =>
      simp only [add, Definition.contribution]
      cases fieldsType d <;> rfl
  | union d =>
      simp only [add, Definition.contribution]
      cases unionType d <;> rfl
  | input d =>
      simp only [add, Definition.contribution]
      cases inputType d <;> rfl
  | _ => rfl

end Draft

/-- A fold that accepts lists with some property holds at every point what is made of the
list that it went through. -/
theorem fold_collects {Failure State Item : Type} {step : State → Item → Except Failure State}
    {Accepts : List Item → Prop} (holds : List Item → State)
    (before : ∀ items item, Accepts (items ++ [item]) → Accepts items)
    (each : ∀ items item next, Accepts items →
      (step (holds items) item = .ok next ↔
        Accepts (items ++ [item]) ∧ next = holds (items ++ [item])))
    (items more : List Item) (next : State) (accepted : Accepts items) :
    more.foldlM step (holds items) = .ok next ↔
      Accepts (items ++ more) ∧ next = holds (items ++ more) := by
  -- What is accepted in the end was accepted at every point before.
  have start (items more : List Item) (all : Accepts (items ++ more)) : Accepts items := by
    induction more generalizing items with
    | nil => rwa [List.append_nil] at all
    | cons item rest ih =>
        rw [List.append_cons] at all
        exact before items item (ih (items ++ [item]) all)
  induction more generalizing items with
  | nil => simp [accepted, pure, Except.pure, eq_comm]
  | cons item rest ih =>
      rw [List.foldlM_cons, List.append_cons]
      constructor
      · intro folded
        obtain ⟨middle, stepped, later⟩ := bind_ok folded
        obtain ⟨more, rfl⟩ := (each items item middle accepted).mp stepped
        exact (ih (items ++ [item]) more).mp later
      · intro all
        have more := start _ rest all.1
        rw [(each items item _ accepted).mpr ⟨more, rfl⟩]
        exact (ih (items ++ [item]) more).mpr all

end Contributions

section Steps
variable {draft next : Draft}

def RootTypeDefinition.named (root : RootTypeDefinition) : OperationKind × String :=
  (root.operation, root.type.name)

def SchemaDefinition.roots (d : SchemaDefinition) : List (OperationKind × String) :=
  d.rootTypes.map RootTypeDefinition.named

namespace Draft

theorem add_type_iff {type : SchemaType} {place : Position} :
    draft.addType type place = .ok next ↔
      isReserved type.name = false ∧ Named.find? type.name draft.types = none ∧
        next = { draft with types := draft.types ++ [type] } := by
  rw [addType]
  split
  · next reserved => simp [reserved]
  · next free =>
    cases Named.find? type.name draft.types with
    | some first => simp
    | none => simp [free, eq_comm]

theorem add_directive_iff {rule : DirectiveRule} :
    draft.addDirective rule = .ok next ↔
      Named.find? rule.name draft.directives = none ∧
        next = { draft with directives := draft.directives ++ [rule] } := by
  rw [addDirective]
  cases Named.find? rule.name draft.directives with
  | some first => simp
  | none => simp [eq_comm]

theorem lookup_none_iff (kind : OperationKind) (roots : List (OperationKind × String)) :
    roots.lookup kind = none ↔ kind ∉ roots.map Prod.fst := by
  rw [List.lookup_eq_none_iff]
  simp only [List.mem_map, bne_iff_ne, not_exists, not_and]
  exact ⟨fun other pair member same => other pair member same.symm,
    fun other pair member same => other pair member same.symm⟩

theorem add_root_iff {root : RootTypeDefinition} :
    draft.addRoot root = .ok next ↔
      root.operation ∉ draft.roots.map Prod.fst ∧
        next = { draft with roots := draft.roots ++ [root.named] } := by
  rw [addRoot, ← lookup_none_iff]
  cases draft.roots.lookup root.operation with
  | some first => simp
  | none => simp [eq_comm, RootTypeDefinition.named]

theorem add_schema_iff {d : SchemaDefinition} (fresh : draft.roots = []) :
    draft.addSchema d = .ok next ↔
      draft.schemaPlace? = none ∧ (d.roots.map Prod.fst).Nodup ∧
        next = { draft with schemaPlace? := some d.position, roots := d.roots } := by
  -- Root types are added one by one, each of them to a draft that holds those before it.
  let holds (roots : List RootTypeDefinition) : Draft :=
    { draft with schemaPlace? := some d.position, roots := roots.map RootTypeDefinition.named }
  have before (roots : List RootTypeDefinition) (root : RootTypeDefinition)
      (distinct : ((roots ++ [root]).map RootTypeDefinition.operation).Nodup) :
      (roots.map RootTypeDefinition.operation).Nodup := by
    rw [List.map_append] at distinct
    exact (List.nodup_append.mp distinct).1
  have each (roots : List RootTypeDefinition) (root : RootTypeDefinition) (next : Draft)
      (distinct : (roots.map RootTypeDefinition.operation).Nodup) :
      (holds roots).addRoot root = .ok next ↔
        ((roots ++ [root]).map RootTypeDefinition.operation).Nodup ∧
          next = holds (roots ++ [root]) := by
    rw [add_root_iff, List.map_append, List.map_singleton, Named.nodup_append_single]
    simp [holds, distinct, RootTypeDefinition.named]
  have all := fold_collects holds before each [] d.rootTypes next List.nodup_nil
  have start : holds [] = { draft with schemaPlace? := some d.position } :=
    congrArg (Draft.mk draft.types draft.directives (some d.position)) fresh.symm
  have keys : d.roots.map Prod.fst = d.rootTypes.map RootTypeDefinition.operation := List.map_map
  rw [addSchema, keys]
  cases draft.schemaPlace? with
  | some first => simp
  | none =>
      rw [← start]
      rw [eq_self, true_and]
      exact all

end Draft
end Steps

section Contents

/-- What definitions contribute, kind by kind. -/
structure Contents where
  types : List SchemaType
  rules : List DirectiveRule
  schemas : List SchemaDefinition

namespace Contents

def ofContributions (contributions : List Contribution) : Contents where
  types := contributions.filterMap Contribution.type?
  rules := contributions.filterMap Contribution.directive?
  schemas := contributions.filterMap Contribution.schema?

def and (contents : Contents) : Contribution → Contents
  | .type type _ => { contents with types := contents.types ++ [type] }
  | .directive rule => { contents with rules := contents.rules ++ [rule] }
  | .schema d => { contents with schemas := contents.schemas ++ [d] }

def roots (contents : Contents) : List (OperationKind × String) :=
  contents.schemas.flatMap SchemaDefinition.roots

def draft (contents : Contents) : Draft where
  types := builtinTypes ++ contents.types
  directives := contents.rules
  schemaPlace? := contents.schemas.head?.map SchemaDefinition.position
  roots := contents.roots

/-- Nothing is defined twice, and no type takes a name that is kept for introspection. -/
structure Acceptable (contents : Contents) : Prop where
  unreserved : ∀ type ∈ contents.types, Draft.isReserved type.name = false
  types : Named.Distinct contents.draft.types
  rules : Named.Distinct contents.rules
  schemas : contents.schemas.length ≤ 1
  roots : (contents.roots.map Prod.fst).Nodup

variable {contents : Contents} {next : Draft}

theorem of_append_single (contributions : List Contribution) (contribution : Contribution) :
    ofContributions (contributions ++ [contribution]) =
      (ofContributions contributions).and contribution := by
  cases contribution <;>
    simp [ofContributions, and, Contribution.type?, Contribution.directive?, Contribution.schema?]

theorem acceptable_type_iff {type : SchemaType} {place : Position} :
    (contents.and (.type type place)).Acceptable ↔
      contents.Acceptable ∧ Draft.isReserved type.name = false ∧
        Named.find? type.name contents.draft.types = none := by
  have types : (contents.and (.type type place)).draft.types = contents.draft.types ++ [type] :=
    (List.append_assoc _ _ _).symm
  constructor
  · rintro ⟨unreserved, distinct, rules, schemas, roots⟩
    rw [types, Named.distinct_append_single] at distinct
    obtain ⟨before, last⟩ := List.forall_mem_append.mp unreserved
    exact ⟨⟨before, distinct.1, rules, schemas, roots⟩, last type List.mem_cons_self, distinct.2⟩
  · rintro ⟨⟨unreserved, distinct, rules, schemas, roots⟩, free, fresh⟩
    constructor
    · exact List.forall_mem_append.mpr ⟨unreserved, List.forall_mem_singleton.mpr free⟩
    · rw [types]
      exact Named.distinct_append_single.mpr ⟨distinct, fresh⟩
    · exact rules
    · exact schemas
    · exact roots

theorem acceptable_directive_iff {rule : DirectiveRule} :
    (contents.and (.directive rule)).Acceptable ↔
      contents.Acceptable ∧ Named.find? rule.name contents.rules = none := by
  constructor
  · rintro ⟨unreserved, types, distinct, schemas, roots⟩
    obtain ⟨distinct, fresh⟩ := Named.distinct_append_single.mp distinct
    exact ⟨⟨unreserved, types, distinct, schemas, roots⟩, fresh⟩
  · rintro ⟨⟨unreserved, types, distinct, schemas, roots⟩, fresh⟩
    exact ⟨unreserved, types, Named.distinct_append_single.mpr ⟨distinct, fresh⟩, schemas, roots⟩

theorem acceptable_schema_iff {d : SchemaDefinition} :
    (contents.and (.schema d)).Acceptable ↔
      contents.Acceptable ∧ contents.schemas = [] ∧ (d.roots.map Prod.fst).Nodup := by
  constructor
  · rintro ⟨unreserved, types, rules, single, distinct⟩
    -- One schema definition is all that is allowed, so there was none before it.
    have before : contents.schemas = [] := by
      simpa [and] using single
    have roots : contents.roots = [] := by rw [Contents.roots, before]; rfl
    refine ⟨⟨unreserved, types, rules, ?_, ?_⟩, before, ?_⟩
    · rw [before]; exact Nat.zero_le 1
    · rw [roots]; exact List.nodup_nil
    · simpa [Contents.roots, and, before] using distinct
  · rintro ⟨⟨unreserved, types, rules, _, _⟩, before, distinct⟩
    refine ⟨unreserved, types, rules, ?_, ?_⟩
    · simp [and, before]
    · simpa [Contents.roots, and, before] using distinct

/-- A draft accepts what keeps its contents acceptable. -/
theorem contribute_iff (acceptable : contents.Acceptable) (contribution : Contribution) :
    contents.draft.contribute contribution = .ok next ↔
      (contents.and contribution).Acceptable ∧ next = (contents.and contribution).draft := by
  cases contribution with
  | type type place =>
      have more : { contents.draft with types := contents.draft.types ++ [type] } =
          (contents.and (.type type place)).draft := by
        simp [draft, and, roots]
      rw [acceptable_type_iff, ← more, Draft.contribute, Draft.add_type_iff]
      simp only [acceptable, true_and, and_assoc]
  | directive rule =>
      rw [acceptable_directive_iff, Draft.contribute, Draft.add_directive_iff]
      simp only [acceptable, true_and]
      rfl
  | schema d =>
      rw [acceptable_schema_iff, Draft.contribute]
      cases before : contents.schemas with
      | nil =>
        have fresh : contents.draft.roots = [] := by simp [draft, roots, before]
        rw [Draft.add_schema_iff fresh]
        simp [draft, and, roots, before, acceptable]
      | cons first rest =>
        simp [Draft.addSchema, draft, before]

theorem acceptable_of_and {contribution : Contribution}
    (acceptable : (contents.and contribution).Acceptable) : contents.Acceptable := by
  cases contribution with
  | type type place => exact (acceptable_type_iff.mp acceptable).1
  | directive rule => exact (acceptable_directive_iff.mp acceptable).1
  | schema d => exact (acceptable_schema_iff.mp acceptable).1

def ofDefinitions (definitions : List Definition) : Contents :=
  ofContributions (Definition.contributions definitions)

end Contents

/-- Definitions that can be loaded together. -/
structure Loadable (definitions : List Definition) : Prop where
  each : ∀ definition ∈ definitions, ∃ contribution, definition.contribution = .ok contribution
  acceptable : (Contents.ofDefinitions definitions).Acceptable

section Loading
variable {definitions : List Definition} {definition : Definition}

theorem contents_append {contribution : Contribution}
    (contributes : definition.contribution = .ok contribution) :
    Contents.ofDefinitions (definitions ++ [definition]) =
      (Contents.ofDefinitions definitions).and contribution := by
  rw [Contents.ofDefinitions, Definition.contributions, List.filterMap_append]
  have single : [definition].filterMap (fun d => d.contribution.toOption) = [contribution] := by
    rw [List.filterMap_cons, contributes]
    rfl
  rw [single]
  exact Contents.of_append_single _ contribution

theorem loadable_nil : Loadable [] where
  each _ member := absurd member List.not_mem_nil
  acceptable := by
    refine ⟨nofun, ?_, List.nodup_nil, Nat.zero_le 1, List.nodup_nil⟩
    rw [Named.Distinct]
    decide

theorem loadable_append_single {contribution : Contribution}
    (contributes : definition.contribution = .ok contribution) :
    Loadable (definitions ++ [definition]) ↔
      Loadable definitions ∧
        ((Contents.ofDefinitions definitions).and contribution).Acceptable := by
  constructor
  · rintro ⟨each, acceptable⟩
    rw [contents_append contributes] at acceptable
    exact ⟨⟨fun d member => each d (List.mem_append_left _ member),
      Contents.acceptable_of_and acceptable⟩, acceptable⟩
  · rintro ⟨⟨each, _⟩, acceptable⟩
    constructor
    · exact List.forall_mem_append.mpr
        ⟨each, List.forall_mem_singleton.mpr ⟨contribution, contributes⟩⟩
    · rw [contents_append contributes]
      exact acceptable

/-- Loading one definition more. -/
theorem add_iff (loadable : Loadable definitions) (definition : Definition) (next : Draft) :
    (Contents.ofDefinitions definitions).draft.add definition = .ok next ↔
      Loadable (definitions ++ [definition]) ∧
        next = (Contents.ofDefinitions (definitions ++ [definition])).draft := by
  rw [Draft.add_eq]
  cases contributes : definition.contribution with
  | error failure =>
      constructor
      · exact nofun
      · rintro ⟨⟨each, _⟩, _⟩
        obtain ⟨contribution, other⟩ := each definition List.mem_concat_self
        rw [contributes] at other
        cases other
  | ok contribution =>
      rw [loadable_append_single contributes, contents_append contributes]
      exact (Contents.contribute_iff loadable.acceptable contribution).trans
        (by simp only [loadable, true_and])

theorem load_definitions_iff (definitions : List Definition) (next : Draft) :
    definitions.foldlM Draft.add Draft.empty = .ok next ↔
      Loadable definitions ∧ next = (Contents.ofDefinitions definitions).draft := by
  have before (items : List Definition) (item : Definition)
      (loadable : Loadable (items ++ [item])) : Loadable items := by
    obtain ⟨contribution, contributes⟩ := loadable.each item List.mem_concat_self
    exact ((loadable_append_single contributes).mp loadable).1
  exact fold_collects (fun items => (Contents.ofDefinitions items).draft) before
    (fun items item next loadable => add_iff loadable item next) [] definitions next loadable_nil

theorem load_documents (documents : List Document) (draft : Draft) :
    documents.foldlM Draft.load draft =
      (documents.flatMap Document.definitions).foldlM Draft.add draft := by
  induction documents generalizing draft with
  | nil => rfl
  | cons document rest ih =>
      rw [List.foldlM_cons, List.flatMap_cons, List.foldlM_append]
      exact bind_congr fun next => ih next

/-- Documents load when their definitions do, and the draft holds what those contribute. -/
theorem load_iff (documents : List Document) (next : Draft) :
    documents.foldlM Draft.load Draft.empty = .ok next ↔
      Loadable (documents.flatMap Document.definitions) ∧
        next = (Contents.ofDefinitions (documents.flatMap Document.definitions)).draft := by
  rw [load_documents]
  exact load_definitions_iff _ next

end Loading
end Contents
end GraphQL
