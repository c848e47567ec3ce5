import GraphQL.CommandLine.FileTree
import GraphQL.Main
import GraphQL.Schema.Equality
import GraphQL.Proofs.Events
import GraphQL.Proofs.Reporters
import GraphQL.Proofs.Recordings
import GraphQL.Proofs.FindingLimit
import GraphQL.Proofs.PartyRefinement
import GraphQL.Proofs.RuleIndependence
import GraphQL.Proofs.BuiltSchemas
import GraphQL.Proofs.ExecutableNodes
import GraphQL.Proofs.FragmentReach
import GraphQL.Proofs.RuleCompleteness
import GraphQL.Proofs.AncestralScope
import GraphQL.Proofs.LoadedDrafts
import GraphQL.Proofs.WellFormedTypes
import GraphQL.Proofs.PossibleTypes
import GraphQL.Proofs.DefinitionOrder
import GraphQL.Proofs.InterfaceConformance
import GraphQL.Proofs.LocatedDocuments
import GraphQL.Proofs.FindingOrder
import GraphQL.Proofs.UnusedRemoval
import GraphQL.Proofs.ReachableFragments
import GraphQL.Proofs.ReservedNames
import GraphQL.Proofs.DirectiveArguments
import GraphQL.Proofs.CommandVerdicts
import GraphQL.Proofs.FragmentSearch
import GraphQL.Proofs.PrunedTours
import GraphQL.Proofs.VisibleTypeNames
import GraphQL.Proofs.FieldFindings
import GraphQL.Proofs.PossibleObjects
import GraphQL.Proofs.MalformedDocuments
import GraphQL.Proofs.WellKindedScopes
import GraphQL.Proofs.InlineFragmentFixes
import GraphQL.Proofs.TypeTexts
import GraphQL.Proofs.PlacesAndPoints
import GraphQL.Proofs.RankedTypes
import GraphQL.Proofs.HeaderLayouts
import GraphQL.Proofs.RankedOptions
import GraphQL.Proofs.PartyStanding
import GraphQL.Proofs.AbandonedTours
import GraphQL.Proofs.WrittenTypes
import GraphQL.Proofs.SpreadCollection
import GraphQL.Proofs.ScanProgress
