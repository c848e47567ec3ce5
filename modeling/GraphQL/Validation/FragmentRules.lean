import GraphQL.Text.Suggestion
import GraphQL.Validation.Inspection

/-! Rules about fragments: those that are spread are defined, and those that are defined
are reached from an operation. -/
namespace GraphQL.Rules
open Inspection

section KnownFragmentNames

def unknownFragment (name : String) : String :=
  "Unknown fragment " ++ Suggestion.quoted name ++ "."

def checkSpread (inspection : Inspection) (node : Node) : Inspection :=
  match node with
  | .selection (.spread spread) =>
      match inspection.document.fragment? spread.fragment with
      | some _ => inspection
      | none => inspection.report (.about (unknownFragment spread.fragment) node)
  | _ => inspection

def knownFragmentNames : Rule :=
  (Visitor.named "KnownFragmentNames").entering .fragmentSpread (observing checkSpread)

end KnownFragmentNames

section NoUnusedFragments

def unusedFragment (name : String) : String :=
  "Fragment " ++ Suggestion.quoted name ++ " is never used."

/-- The definitions that were seen so far. -/
structure Seen where
  operations : List Operation
  fragments : List Fragment

def see (seen : Seen) : Node → Seen
  | .definition (.operation d) => { seen with operations := seen.operations ++ [d] }
  | .definition (.fragment d) => { seen with fragments := seen.fragments ++ [d] }
  | _ => seen

def seeing : Callback Seen Inspection :=
  fun seen inspection node => ⟨see seen node, inspection, .ok .skip⟩

def usedNames (document : Document) (operations : List Operation) : List String :=
  (operations.flatMap document.reached).map Fragment.name

def unusedFindings (document : Document) (seen : Seen) : List Finding :=
  let used := usedNames document seen.operations
  (seen.fragments.filter fun fragment => !used.contains fragment.name).map fun fragment =>
    .about (unusedFragment fragment.name) (.definition (.fragment fragment))

def reportUnused : Callback Seen Inspection :=
  fun seen inspection _ =>
    ⟨seen, inspection.reportAll (unusedFindings inspection.document seen), .ok .proceed⟩

def noUnusedFragments : Rule where
  name := "NoUnusedFragments"
  State := Seen
  state := ⟨[], []⟩
  onEnter
    | .operationDefinition => some seeing
    | .fragmentDefinition => some seeing
    | _ => none
  onLeave
    | .document => some reportUnused
    | _ => none

end NoUnusedFragments

end GraphQL.Rules
