import TypedClient.Schema.Kind
import TypedClient.Routing.Guard
import TypedClient.Routing.Table
import TypedClient.Call
import TypedClient.LogSettings
import TypedClient.Main
import TypedClient.Proofs.Module.FreshName
import TypedClient.Proofs.Routing.GuardedRendering
import TypedClient.Proofs.Module.ImportRequests
import TypedClient.Proofs.Text.Pieces
import TypedClient.Proofs.Path.Specifier
import TypedClient.Proofs.Client.Location
import TypedClient.Proofs.Module.DraftImports
import TypedClient.Proofs.Client.EntityImports
import TypedClient.Proofs.Client.CrossReferences
import TypedClient.Proofs.Path.Spot
import TypedClient.Proofs.Client.EndpointFile
import TypedClient.Proofs.Client.FilePaths
import TypedClient.Proofs.Literal.Numeral
import TypedClient.Proofs.Literal.RoundTrip
import TypedClient.Proofs.Routing.BestHit
import TypedClient.Proofs.Routing.GuardedMatching
import TypedClient.Proofs.Routing.SegmentCuts
import TypedClient.Proofs.Routing.PatternExpression
import TypedClient.Proofs.Routing.PatternMatching
import TypedClient.Proofs.Module.DraftWork
import TypedClient.Proofs.Client.SchemaWork
import TypedClient.Proofs.Client.Inheritance
import TypedClient.Proofs.Routing.ManifestAgreement
import TypedClient.Proofs.Routing.Parameters
import TypedClient.Proofs.FileTree.UserFiles
import TypedClient.Proofs.Client.AnnotationEntries
import TypedClient.Proofs.Routing.RouteModuleReading
import TypedClient.Proofs.Client.OutputTree
import TypedClient.Proofs.Client.EndpointExports
import TypedClient.Proofs.Client.EndpointScopes
import TypedClient.Proofs.Client.HiddenNames
import TypedClient.Proofs.Routing.CollectedTrees
import TypedClient.Proofs.Routing.MountedViews
import TypedClient.Proofs.Routing.ViewSpecifiers
import TypedClient.Proofs.Client.DescriptionComments
import TypedClient.Proofs.Routing.PlacedRoutes
import TypedClient.Proofs.Routing.RoutePrecedence
import TypedClient.Proofs.Routing.AcceptedLocations
import TypedClient.Proofs.Routing.StaticRoutes
import TypedClient.Proofs.Routing.SegmentSpelling
import TypedClient.Proofs.Routing.SiblingSegments
import TypedClient.Proofs.Routing.MatchedChains
import TypedClient.Proofs.Routing.AbsentSegments
import TypedClient.Proofs.Routing.GuardedForests
import TypedClient.Proofs.Literal.Grammar
import TypedClient.Proofs.Literal.Reading
import TypedClient.Proofs.Literal.OffsetReading
import TypedClient.Proofs.Literal.Positions
import TypedClient.Proofs.Client.ResolvedSchemas
import TypedClient.Proofs.Client.ValidatorSpines
import TypedClient.Proofs.Client.DeclaredValidators
import TypedClient.Proofs.Client.Compositions
import TypedClient.Proofs.Client.NullSpellings
import TypedClient.Proofs.Client.AccessorAgreement
import TypedClient.Proofs.Json.LoadedKeys
import TypedClient.Proofs.Client.EmittedCalls
import TypedClient.Proofs.Document.DeclaredOperations
import TypedClient.Proofs.Document.DeclaredParameters
import TypedClient.Proofs.Document.RequestBodies
import TypedClient.Proofs.Client.OptionalParameters
import TypedClient.Proofs.Document.EntityParents
import TypedClient.Proofs.Client.DeclaredMembers
import TypedClient.Proofs.Routing.SegmentTokens
import TypedClient.Proofs.Routing.SiblingPages
import TypedClient.Proofs.Path.RelativizedPaths
import TypedClient.Proofs.Routing.ConfigDeclarations
import TypedClient.Proofs.Routing.WrappedComponents
import TypedClient.Proofs.Routing.AnonymousComponents
import TypedClient.Proofs.FileTree.RepeatedWrites
import TypedClient.Proofs.Module.ImportSyntax
import TypedClient.Proofs.Module.RenderedImports
import TypedClient.Proofs.Routing.FailingViews
