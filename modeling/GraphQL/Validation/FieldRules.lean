import GraphQL.Text.Suggestion
import GraphQL.Validation.Inspection

/-! Rules about the fields that are selected: each is defined by its parent type, and
exactly the fields whose types have fields themselves come with a selection. Below a
field that is not defined nothing is known, so nothing is found there. -/
namespace GraphQL.Rules
open Inspection

section ScalarLeafs

def noSelectionAllowed (field type : String) : String :=
  "Field " ++ Suggestion.quoted field ++ " must not have a selection since type " ++
    Suggestion.quoted type ++ " has no subfields."

def selectionRequired (field type : String) : String :=
  "Field " ++ Suggestion.quoted field ++ " of type " ++ Suggestion.quoted type ++
    " must have a selection of subfields. Did you mean " ++
    Suggestion.quoted (field ++ " \x7b ... \x7d") ++ "?"

def leafFinding? (field : Field) (type : TypeExpr) (isLeaf : Bool) : Option Finding :=
  match isLeaf, field.selectionSet? with
  | true, some set => some (.about (noSelectionAllowed field.name type.text) (.selectionSet set))
  | false, none =>
      some (.about (selectionRequired field.name type.text) (.selection (.field field)))
  | _, _ => none

def checkLeaf (inspection : Inspection) : Node → Inspection
  | .selection (.field field) =>
      match inspection.scope.type? with
      | none => inspection
      | some type =>
          match inspection.schema.innermost? type with
          | none => inspection
          | some named =>
              match leafFinding? field type named.isLeaf with
              | some finding => inspection.report finding
              | none => inspection
  | _ => inspection

def scalarLeafs : Rule :=
  (Visitor.named "ScalarLeafs").entering .field (observing checkLeaf)

end ScalarLeafs

section SuggestedTypes

/-- A type that has a field, and how many of the possible types of the parent use it. -/
structure Candidate where
  name : String
  uses : Nat
  isInterface : Bool

instance : Named Candidate := ⟨Candidate.name⟩

def useInterface (candidates : List Candidate) (name : String) : List Candidate :=
  match Named.find? name candidates with
  | some found => Named.put { found with uses := found.uses + 1 } candidates
  | none => Named.put ⟨name, 1, true⟩ candidates

def hasField (schema : Schema) (field name : String) : Bool :=
  (schema.type? name).any fun type => Named.has field type.fields

def addCandidates (schema : Schema) (field : String) (candidates : List Candidate)
    (object : FieldsType) : List Candidate :=
  if Named.has field object.fields then
    (object.interfaces.filter (hasField schema field)).foldl useInterface
      (Named.put ⟨object.name, 1, false⟩ candidates)
  else candidates

/-- More uses first, then interfaces before objects, then by name. -/
def Candidate.before (a b : Candidate) : Bool :=
  b.uses < a.uses ||
    a.uses == b.uses && (a.isInterface && !b.isInterface ||
      a.isInterface == b.isInterface && decide (a.name ≤ b.name))

def suggestedTypes (schema : Schema) (parent : SchemaType) (field : String) : List String :=
  if parent.isAbstract then
    (((schema.possibleTypes parent).foldl (addCandidates schema field) []).mergeSort
      Candidate.before).map Candidate.name
  else []

end SuggestedTypes

section FieldsOnCorrectType

def undefinedField (field type : String) (types fields : List String) : String :=
  let hint := Suggestion.didYouMean (some "to use an inline fragment on") types
  "Cannot query field " ++ Suggestion.quoted field ++ " on type " ++ Suggestion.quoted type ++
    "." ++ (if hint.isEmpty then Suggestion.didYouMean none fields else hint)

def suggestedFields (parent : SchemaType) (field : String) : List String :=
  Suggestion.closeOptions field (parent.fields.map OutputField.name)

def undefinedFieldFinding (schema : Schema) (parent : SchemaType) (field : Field) : Finding :=
  let types := suggestedTypes schema parent field.name
  let fields := if types.isEmpty then suggestedFields parent field.name else []
  .about (undefinedField field.name parent.name types fields) (.selection (.field field))

def checkField (inspection : Inspection) : Node → Inspection
  | .selection (.field field) =>
      match inspection.scope.parent?, inspection.scope.field? with
      | some parent, none =>
          inspection.report (undefinedFieldFinding inspection.schema parent field)
      | _, _ => inspection
  | _ => inspection

def fieldsOnCorrectType : Rule :=
  (Visitor.named "FieldsOnCorrectType").entering .field (observing checkField)

end FieldsOnCorrectType

end GraphQL.Rules
