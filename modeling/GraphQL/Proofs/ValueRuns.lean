import GraphQL.Document.Located
import GraphQL.Grammar.Values
import GraphQL.Proofs.ParserRuns

/-! Values, directives and references to types, read from a text that is in step. Values
and directives are passed by the header steps as they are read, and a reference to a type
stands where its own tokens do. -/
namespace GraphQL.Grammar
open GraphQL.Parser Text Header

variable {text : List Char} {front next : Front text}

section Values

theorem skip_passes {token : Token} (sees : front.Sees token) (goes : token ≠ .finish)
    (valid : token ≠ .invalid) (opening : token ≠ .punct '(') (closing : token ≠ .punct ')') :
    Reads skip front fun _ next => front.Passes next := by
  obtain ⟨next, takes⟩ := sees.takes goes valid
  apply (skip_reads takes).mono
  rintro _ _ rfl
  exact takes.passes opening closing

theorem leaf_value_reads (constant : Bool) (place : Position) (front : Front text) :
    Reads (leafValue constant place) front fun _ next => front.Passes next := by
  apply peek_reads.bind
  rintro token _ ⟨rfl, sees⟩
  split
  · -- A reference to a variable takes two tokens.
    cases constant with
    | true => exact Reads.bind (fail_reads : Reads _ _ fun _ _ => False) nofun
    | false =>
        apply (skip_passes sees nofun nofun nofun nofun).bind
        intro _ dollar passes
        apply name_reads.bind
        intro word next takes
        exact .pure (passes.trans takes.passes_name)
  · exact (skip_passes sees nofun nofun nofun nofun).bind fun _ _ passes => .pure passes
  · exact (skip_passes sees nofun nofun nofun nofun).bind fun _ _ passes => .pure passes
  · exact (skip_passes sees nofun nofun nofun nofun).bind fun _ _ passes => .pure passes
  · exact (skip_passes sees nofun nofun nofun nofun).bind fun _ _ passes => .pure passes
  · exact fail_reads

theorem object_field_reads {value : Parser Value} (place : Position)
    (each : ∀ front : Front text, Reads value front fun _ next => front.Passes next)
    (front : Front text) :
    Reads (objectField place value) front fun _ next => True ∧ front.Passes next := by
  apply name_reads.bind
  intro key colon named
  apply punct_reads.bind
  intro _ start closed
  apply (each start).bind
  intro result next passes
  have before := named.passes_name.trans (closed.passes_punct (by decide) (by decide))
  exact .pure ⟨trivial, before.trans passes⟩

theorem value_reads (constant : Bool) (place : Position) (room : Nat) (front : Front text) :
    Reads (value constant place room) front fun _ next => front.Passes next := by
  induction room generalizing front with
  | zero => exact leaf_value_reads constant place front
  | succ room ih =>
      have item (front : Front text) : Reads (value constant place room) front
          fun _ next => True ∧ front.Passes next := (ih front).mono fun _ _ passes => ⟨trivial, passes⟩
      apply accept_reads.bind
      rintro list inside (⟨rfl, opens⟩ | ⟨rfl, rfl, _⟩)
      · apply (items_until_reads passes_composes item inside).bind
        rintro items next ⟨_, last, passes, closes⟩
        have before := (opens.passes_punct (by decide) (by decide)).trans passes
        exact .pure (before.trans (closes.passes_punct (by decide) (by decide)))
      · apply accept_reads.bind
        rintro object inside (⟨rfl, opens⟩ | ⟨rfl, rfl, _⟩)
        · apply (items_until_reads passes_composes (object_field_reads place ih) inside).bind
          rintro fields next ⟨_, last, passes, closes⟩
          have before := (opens.passes_punct (by decide) (by decide)).trans passes
          exact .pure (before.trans (closes.passes_punct (by decide) (by decide)))
        · exact leaf_value_reads constant place _

theorem argument_reads (place : Position) (room : Nat) (front : Front text) :
    Reads (argument place room) front fun _ next => True ∧ front.Passes next := by
  apply name_reads.bind
  intro key colon named
  apply punct_reads.bind
  intro _ start closed
  apply (value_reads false place room start).bind
  intro result next passes
  have before := named.passes_name.trans (closed.passes_punct (by decide) (by decide))
  exact .pure ⟨trivial, before.trans passes⟩

end Values

section Groups
variable {α : Type} {items : Nat → Parser α} {Good : α → Prop}

/-- A group in parentheses is passed as one step. -/
theorem group_reads
    (each : ∀ room (front : Front text), Reads (items room) front fun result next =>
      Good result ∧ front.Passes next)
    (room : Nat) (front : Front text) :
    Reads (optionalGroup '(' ')' items room) front fun results next =>
      (∀ result ∈ results, Good result) ∧ front.Passes next ∧ front.Leads .optionalGroup next := by
  apply (optional_group_reads passes_composes each room front).mono
  rintro results next ⟨all, ⟨rfl, none⟩ | ⟨inside, last, opens, body, closes⟩⟩
  · exact ⟨all, .refl _, Front.leads_without_group (Front.not_next (by decide) none)⟩
  · exact ⟨all, body.grouped opens closes, body.leads_group opens closes⟩

theorem arguments_reads (place : Position) (room : Nat) (front : Front text) :
    Reads (arguments place room) front fun _ next =>
      front.Passes next ∧ front.Leads .optionalGroup next :=
  (group_reads (argument_reads place) room front).mono fun _ _ there => there.2

end Groups

section Directives

/-- Directives up to the next front, as far as the header step over them is concerned. -/
structure Directs (front next : Front text) : Prop where
  passes : front.Passes next
  steps : afterDirectives? (skipIgnored front.rest) = afterDirectives? (skipIgnored next.rest)

theorem directs_composes : Composes (@Directs text) where
  refl front := ⟨.refl front, rfl⟩
  trans first second := ⟨first.passes.trans second.passes, first.steps.trans second.steps⟩

theorem directive_reads (room : Nat) (front : Front text) :
    Reads (directive room) front fun _ next =>
      True ∧ Directs front next ∧ next.lexemes.length < front.lexemes.length := by
  apply place_reads.bind
  rintro place _ ⟨rfl, _⟩
  apply punct_reads.bind
  intro _ sign signs
  apply name_reads.bind
  intro called named names
  apply (arguments_reads place room named).bind
  rintro arguments next ⟨passes, leads⟩
  apply Reads.pure
  refine ⟨trivial, ⟨?_, Front.passed_directive signs names leads⟩, ?_⟩
  · exact (signs.passes_punct (by decide) (by decide)).trans (names.passes_name.trans passes)
  · exact Nat.lt_of_le_of_lt (names.passes_name.trans passes).shorter signs.shorter

theorem directives_reads (room : Nat) (front : Front text) :
    Reads (directives room) front fun _ next =>
      front.Passes next ∧ front.Leads .directives next := by
  apply (items_while_reads directs_composes (directive_reads room) front).mono
  rintro results next ⟨_, ⟨passes, steps⟩, stops⟩
  exact ⟨passes, Front.leads_past_directives (Front.not_next (by decide) stops) steps⟩

end Directives

section Types

/-- Looking the type up from this front changes nothing. -/
def Stands (type : TypeRef) (front : Front text) : Prop :=
  ∀ enclosing, type.locate text enclosing (some (skipIgnored front.rest)) = type

def NameStands (type : NamedType) (front : Front text) : Prop :=
  ∀ enclosing, type.locate text enclosing (some (skipIgnored front.rest)) = type

theorem named_type_reads (front : Front text) :
    Reads namedType front fun type next =>
      NameStands type front ∧ front.Takes (.name type.name) next := by
  apply place_reads.bind
  rintro place _ ⟨rfl, here⟩
  apply name_reads.bind
  intro word next takes
  apply Reads.pure
  refine ⟨fun enclosing => ?_, takes⟩
  rw [here takes.continues, NamedType.locate, namePlace?, Option.bind_some, takes.name.1,
    takes.name.2]
  simp only [Option.isSome_some, beq_self_eq_true, Bool.and_self, if_true, Option.getD_some]
  rfl

theorem non_null_reads (type : TypeRef) (start front : Front text) (stands : Stands type start) :
    Reads (nonNull type) front fun result next => Stands result start ∧ front.Passes next := by
  apply accept_reads.bind
  rintro mark next (⟨rfl, takes⟩ | ⟨rfl, rfl, _⟩)
  · apply Reads.pure
    refine ⟨fun enclosing => ?_, takes.passes_punct (by decide) (by decide)⟩
    rw [TypeRef.locate, stands enclosing]
  · exact .pure ⟨stands, .refl _⟩

theorem named_ref_reads (front : Front text) :
    Reads (do nonNull (.named (← namedType))) front fun type next =>
      Stands type front ∧ front.Passes next := by
  apply (named_type_reads front).bind
  rintro named after ⟨stands, takes⟩
  have start : Stands (.named named) front := by
    intro enclosing
    rw [TypeRef.locate, stands enclosing]
  apply (non_null_reads _ front after start).mono
  rintro type next ⟨stands, passes⟩
  exact ⟨stands, takes.passes_name.trans passes⟩

theorem type_ref_reads (room : Nat) (front : Front text) :
    Reads (typeRef room) front fun type next => Stands type front ∧ front.Passes next := by
  induction room generalizing front with
  | zero => exact named_ref_reads front
  | succ room ih =>
      apply place_reads.bind
      rintro place _ ⟨rfl, here⟩
      apply accept_reads.bind
      rintro list inside (⟨rfl, opens⟩ | ⟨rfl, rfl, _⟩)
      · apply (ih inside).bind
        rintro inner last ⟨stands, passes⟩
        apply punct_reads.bind
        intro _ after closes
        have bracket : Stands (.list place inner) front := by
          intro enclosing
          have behind : (some (skipIgnored front.rest)).bind (steps · [.punct '[']) =
              some (skipIgnored inside.rest) := by
            rw [Option.bind_some, Front.steps_skip, opens.leads_punct, steps]
          have point : bracketPoint (some (skipIgnored front.rest)) =
              some (skipIgnored front.rest) := by
            rw [bracketPoint, opens.punct]
            rfl
          rw [TypeRef.locate, point, behind, Option.map_some, Option.getD_some, stands,
            here opens.continues]
          rfl
        apply (non_null_reads _ front after bracket).mono
        rintro type next ⟨stands, mark⟩
        have before := (opens.passes_punct (by decide) (by decide)).trans passes
        have closed := closes.passes_punct (by decide) (by decide)
        exact ⟨stands, (before.trans closed).trans mark⟩
      · exact named_ref_reads front

theorem default_reads (place : Position) (room : Nat) (front : Front text) :
    Reads (default? place room) front fun _ next => front.Passes next := by
  apply accept_reads.bind
  rintro given start (⟨rfl, takes⟩ | ⟨rfl, rfl, _⟩)
  · apply (value_reads true place room start).bind
    intro value next passes
    exact .pure ((takes.passes_punct (by decide) (by decide)).trans passes)
  · exact .pure (.refl _)

end Types
end GraphQL.Grammar
