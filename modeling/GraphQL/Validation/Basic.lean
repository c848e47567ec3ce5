import GraphQL.Validation.FieldRules
import GraphQL.Validation.FragmentRules
import GraphQL.Validation.TypeRules

/-! Validation of a document against a schema: the findings of some rules, or the fault
that kept them from looking at all of the document. -/
namespace GraphQL

open Inspection

/-- The rules that every valid document obeys. -/
def specifiedRules : List Rule :=
  [Rules.knownTypeNames, Rules.fragmentsOnCompositeTypes, Rules.variablesAreInputTypes,
   Rules.scalarLeafs, Rules.fieldsOnCorrectType, Rules.knownFragmentNames,
   Rules.noUnusedFragments]

def validateWithin (limit? : Option Nat) (schema : Schema) (document : Document)
    (rules : List Rule) : Except Fault (List Finding) :=
  match (Inspection.start schema document limit?).inspect rules with
  | (_, .fault fault) => .error fault
  | (inspection, _) => .ok inspection.outcome

def validate (schema : Schema) (document : Document) (rules : List Rule) :
    Except Fault (List Finding) :=
  validateWithin none schema document rules

def Fault.validationMessage (fault : Fault) : String := "validation aborted: " ++ fault.message

end GraphQL
