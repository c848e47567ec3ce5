import GraphQL.Text.Suggestion
import GraphQL.Validation.Inspection

/-! Rules about the types that a document names: they are defined, fragments apply to
composite types, and variables have input types. A type that is not defined is an error
against the first of them only. -/
namespace GraphQL.Rules
open Inspection

section KnownTypeNames

def unknownType (name : String) (suggestions : List String) : String :=
  "Unknown type " ++ Suggestion.quoted name ++ "." ++ Suggestion.perhapsYouMeant suggestions

def checkTypeName (inspection : Inspection) (node : Node) : Inspection :=
  match node with
  | .type (.named type) =>
      match inspection.schema.type? type.name with
      | some _ => inspection
      | none =>
          let names := inspection.schema.types.map SchemaType.name
          inspection.report
            (.about (unknownType type.name (Suggestion.closeOptions type.name names)) node)
  | _ => inspection

/-- Types that are defined in the document itself may name each other, so what is written
in their definitions is left alone. -/
def knownTypeNames : Rule :=
  (((((Visitor.named "KnownTypeNames").skipping .objectTypeDefinition).skipping
    .interfaceTypeDefinition).skipping .unionTypeDefinition).skipping
    .inputObjectTypeDefinition).entering .namedType (observing checkTypeName)

end KnownTypeNames

section FragmentsOnCompositeTypes

def inlineOnNonComposite (type : String) : String :=
  "Fragment cannot condition on non composite type " ++ Suggestion.quoted type ++ "."

def fragmentOnNonComposite (fragment type : String) : String :=
  "Fragment " ++ Suggestion.quoted fragment ++ " cannot condition on non composite type " ++
    Suggestion.quoted type ++ "."

def checkCondition (inspection : Inspection) (condition : NamedType) (message : String) :
    Inspection :=
  match inspection.schema.type? condition.name with
  | some type =>
      if type.isComposite then inspection
      else inspection.report (.about message (.type (.named condition)))
  | none => inspection

def checkInlineCondition (inspection : Inspection) : Node → Inspection
  | .selection (.inline f) =>
      match f.typeCondition? with
      | some condition =>
          checkCondition inspection condition (inlineOnNonComposite condition.name)
      | none => inspection
  | _ => inspection

def checkFragmentCondition (inspection : Inspection) : Node → Inspection
  | .definition (.fragment d) =>
      checkCondition inspection d.typeCondition
        (fragmentOnNonComposite d.name d.typeCondition.name)
  | _ => inspection

def fragmentsOnCompositeTypes : Rule :=
  ((Visitor.named "FragmentsOnCompositeTypes").entering .inlineFragment
    (observing checkInlineCondition)).entering .fragmentDefinition
    (observing checkFragmentCondition)

end FragmentsOnCompositeTypes

section VariablesAreInputTypes

def nonInputVariable (name type : String) : String :=
  "Variable " ++ Suggestion.quoted ("$" ++ name) ++ " cannot be non-input type " ++
    Suggestion.quoted type ++ "."

def checkVariable (inspection : Inspection) : Node → Inspection
  | .variableDefinition d =>
      match inspection.schema.innermost? (.ofRef d.type) with
      | some type =>
          if type.isInput then inspection
          else inspection.report (.about (nonInputVariable d.name d.type.text) (.type d.type))
      | none => inspection
  | _ => inspection

def variablesAreInputTypes : Rule :=
  (Visitor.named "VariablesAreInputTypes").entering .variableDefinition (observing checkVariable)

end VariablesAreInputTypes

end GraphQL.Rules
