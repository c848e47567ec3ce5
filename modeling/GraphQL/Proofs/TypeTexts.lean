import GraphQL.Schema.TypeExpr
import Mathlib.Tactic.ByContra
import Mathlib.Tactic.TFAE

/-! How types are written. A reference marks what does not admit null, and nothing keeps a mark
from standing on a mark; a type says of each of its levels whether it admits null, and is written
with at most one mark there. So the text is kept exactly where no mark is doubled. From the text
of a type its levels can be read off again: the last character is the mark of the outermost
level, and a bracket in front of it tells a list from a name. -/
namespace GraphQL

section References

/-- No mark stands directly on a mark. -/
def TypeRef.MarkedOnce : TypeRef → Prop
  | .named _ => True
  | .list _ inner => inner.MarkedOnce
  | .nonNull _ (.nonNull _ _) => False
  | .nonNull _ inner => inner.MarkedOnce

namespace TypeExpr
variable {type : TypeRef}

theorem innermost_of_ref_with (type : TypeRef) (nullable : Bool) :
    (ofRefWith nullable type).innermostName = type.innermost.name := by
  induction type generalizing nullable with
  | named named => rfl
  | list place inner ih => exact ih true
  | nonNull place inner ih => exact ih false

theorem text_of_list (place : Position) (inner : TypeRef) (nullable : Bool)
    (kept : (ofRefWith true inner).text = inner.text) :
    (ofRefWith nullable (.list place inner)).text =
      (TypeRef.list place inner).text ++ mark nullable := by
  simp only [ofRefWith, text, TypeRef.text, kept]

theorem text_of_ref (once : type.MarkedOnce) : (ofRef type).text = type.text := by
  rw [ofRef]
  induction type with
  | named named => simp [ofRefWith, text, mark, TypeRef.text]
  | list place inner ih => simp [text_of_list place inner true (ih once), mark]
  | nonNull place inner ih =>
      cases inner with
      | named named => rfl
      | list place' inner =>
          -- Below the mark stands a list, so what is known of the list itself gives its inner type.
          have kept : (ofRefWith true inner).text = inner.text := by
            simpa [ofRefWith, text, TypeRef.text, mark] using ih once
          exact text_of_list place' inner false kept
      | nonNull place' inner => exact absurd once id

@[simp]
theorem mark_length (nullable : Bool) : (mark nullable).length = bif nullable then 0 else 1 := by
  cases nullable <;> rfl

@[simp]
theorem non_null_length (place : Position) (inner : TypeRef) :
    (TypeRef.nonNull place inner).text.length = inner.text.length + 1 := by
  rw [TypeRef.text, String.length_append]
  rfl

@[simp]
theorem list_length (place : Position) (inner : TypeRef) :
    (TypeRef.list place inner).text.length = inner.text.length + 2 := by
  rw [TypeRef.text, String.length_append, String.length_append]
  show 1 + inner.text.length + 1 = inner.text.length + 2
  omega

@[simp]
theorem list_text_length (inner : TypeExpr) (nullable : Bool) :
    (list inner nullable).text.length = inner.text.length + 2 + (mark nullable).length := by
  rw [text, String.length_append, String.length_append, String.length_append]
  show 1 + inner.text.length + 1 + _ = _
  omega

theorem text_length_le (type : TypeRef) (nullable : Bool) :
    (ofRefWith nullable type).text.length ≤ type.text.length + (mark nullable).length := by
  induction type generalizing nullable with
  | named named => simp [ofRefWith, text, TypeRef.text]
  | list place inner ih =>
      have shorter := ih true
      simp only [ofRefWith, list_length, list_text_length, mark_length, cond_true] at shorter ⊢
      omega
  | nonNull place inner ih =>
      have shorter := ih false
      simp only [ofRefWith, non_null_length, mark_length, cond_false] at shorter ⊢
      omega

/-- A doubled mark is lost. -/
theorem text_length_lt (doubled : ¬type.MarkedOnce) (nullable : Bool) :
    (ofRefWith nullable type).text.length < type.text.length + (mark nullable).length := by
  induction type generalizing nullable with
  | named named => exact absurd trivial doubled
  | list place inner ih =>
      have shorter := ih doubled true
      simp only [ofRefWith, list_length, list_text_length, mark_length, cond_true] at shorter ⊢
      omega
  | nonNull place inner ih =>
      cases inner with
      | nonNull place' inner =>
          have shorter := text_length_le inner false
          simp only [ofRefWith, non_null_length, mark_length, cond_false] at shorter ⊢
          omega
      | named named => exact absurd trivial doubled
      | list place' inner =>
          have shorter := ih doubled false
          rw [ofRefWith, non_null_length]
          exact Nat.lt_of_lt_of_le shorter (Nat.le_add_right _ _)

theorem text_of_ref_iff (type : TypeRef) : (ofRef type).text = type.text ↔ type.MarkedOnce := by
  constructor
  · intro kept
    by_contra doubled
    have shorter := text_length_lt doubled true
    rw [← ofRef, kept] at shorter
    exact Nat.lt_irrefl _ shorter
  · exact text_of_ref

end TypeExpr
end References

section Texts
namespace TypeExpr
variable {a b : TypeExpr}

/-- The characters by which the levels of a type are written. -/
def signs : List Char := ['[', ']', '!']

/-- The name at the core holds none of the signs. -/
def PlainName (type : TypeExpr) : Prop := ∀ c ∈ type.innermostName.toList, c ∉ signs

instance (type : TypeExpr) : Decidable type.PlainName :=
  List.decidableBAll (· ∉ signs) type.innermostName.toList

/-- What is written in front of the mark of the outermost level. -/
def unmarked : TypeExpr → List Char
  | named name _ => name.toList
  | list inner _ => '[' :: inner.text.toList ++ [']']

theorem text_eq_unmarked (type : TypeExpr) :
    type.text.toList = type.unmarked ++ (mark type.nullable).toList := by
  cases type <;> simp [text, unmarked, nullable]

theorem unmarked_ends (plain : a.PlainName) (before : List Char) : a.unmarked ≠ before ++ ['!'] := by
  intro ends
  cases a with
  | named name nullable =>
      have member : '!' ∈ name.toList := by
        rw [show name.toList = before ++ ['!'] from ends]
        simp
      exact plain '!' member (by decide)
  | list inner nullable =>
      have last : [']'] = ['!'] := List.append_inj_right' ends rfl
      exact absurd last (by decide)

theorem unmarked_eq (plain : a.PlainName) (plain' : b.PlainName) (same : a.text = b.text) :
    a.unmarked = b.unmarked ∧ a.nullable = b.nullable := by
  have chars : a.unmarked ++ (mark a.nullable).toList = b.unmarked ++ (mark b.nullable).toList := by
    rw [← text_eq_unmarked, ← text_eq_unmarked, same]
  cases nullable : a.nullable <;> cases nullable' : b.nullable <;>
    simp only [nullable, nullable', mark, String.toList_empty, List.append_nil, Bool.false_eq_true,
      if_true, if_false] at chars
  · exact ⟨List.append_cancel_right chars, rfl⟩
  · exact absurd chars.symm (unmarked_ends plain' a.unmarked)
  · exact absurd chars (unmarked_ends plain b.unmarked)
  · exact ⟨chars, rfl⟩

theorem name_without_bracket {name : String} {nullable : Bool} {rest : List Char}
    (plain : (named name nullable).PlainName) : name.toList ≠ '[' :: rest := by
  intro starts
  have member : '[' ∈ name.toList := by
    rw [starts]
    exact List.mem_cons_self
  exact plain '[' member (by decide)

theorem eq_of_text_eq (plain : a.PlainName) (plain' : b.PlainName) (same : a.text = b.text) :
    a = b := by
  induction a generalizing b with
  | named name nullable =>
      obtain ⟨front, level⟩ := unmarked_eq plain plain' same
      cases b with
      | named name' nullable' =>
          obtain rfl : name = name' := String.toList_injective front
          exact congrArg (named name) level
      | list inner' nullable' => exact absurd front (name_without_bracket plain)
  | list inner nullable ih =>
      obtain ⟨front, level⟩ := unmarked_eq plain plain' same
      cases b with
      | named name' nullable' => exact absurd front.symm (name_without_bracket plain')
      | list inner' nullable' =>
          have inside : inner.text = inner'.text :=
            String.toList_injective (List.cons.inj (List.append_cancel_right front)).2
          obtain rfl : inner = inner' := ih plain plain' inside
          exact congrArg (list inner) level

/-- A type that is read from a reference is written like the reference exactly if no mark of the
reference stands on a mark, and the name at the core is the same in any case. Types whose names
hold no sign are the same if they are written the same, and that is what their comparison level
by level says. -/
theorem type_texts_are_faithful :
    (∀ type : TypeRef, ((ofRef type).text = type.text ↔ type.MarkedOnce) ∧
      (ofRef type).innermostName = type.innermost.name) ∧
    ∀ a b : TypeExpr, a.PlainName → b.PlainName →
      [a.text = b.text, a.equivalent b = true, a = b].TFAE := by
  refine ⟨fun type => ⟨text_of_ref_iff type, innermost_of_ref_with type true⟩, ?_⟩
  intro a b plain plain'
  tfae_have 1 → 3 := eq_of_text_eq plain plain'
  tfae_have 3 → 1 := congrArg text
  tfae_have 2 ↔ 3 := equivalent_iff a b
  tfae_finish

/-- A list that is read from a reference, and one with the mark on the other level. -/
theorem marks_of_two_lists :
    let id : TypeRef := .named ⟨.start, "ID"⟩
    let a := ofRef (.nonNull .start (.list .start (.list .start id)))
    let b := ofRef (.list .start (.list .start (.nonNull .start id)))
    a.PlainName ∧ b.PlainName ∧ [a.text = b.text, a.equivalent b = true, a = b].TFAE ∧
      a.text = "[[ID]]!" ∧ b.text = "[[ID!]]" := by
  intro id a b
  have plain : a.PlainName := by decide
  have plain' : b.PlainName := by decide
  exact ⟨plain, plain', type_texts_are_faithful.2 a b plain plain', rfl, rfl⟩

-- A sign in a name makes two types look the same.
example : (named "ID!" true).text = (named "ID" false).text := rfl

end TypeExpr
end Texts
end GraphQL
