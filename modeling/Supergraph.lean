import Supergraph.Application
import Supergraph.Backend.Database
import Supergraph.Backend.Federation
import Supergraph.Backend.GraphQL
import Supergraph.Backend.OpenApi
import Supergraph.Classification
import Supergraph.Composite
import Supergraph.Decimal.Basic
import Supergraph.Digest.Sha256
import Supergraph.Error
import Supergraph.FieldConfig
import Supergraph.FieldSet
import Supergraph.Files
import Supergraph.Float64.Basic
import Supergraph.Float64.Shortest
import Supergraph.Fraction
import Supergraph.Http
import Supergraph.Introspection.Backends
import Supergraph.Introspection.Cache
import Supergraph.Introspection.DiskCache
import Supergraph.Introspection.Fingerprint
import Supergraph.Introspection.Introspector
import Supergraph.Introspection.Policy
import Supergraph.Introspection.Retry
import Supergraph.Json.Codec
import Supergraph.Json.Number
import Supergraph.Json.Parser
import Supergraph.Json.Printer
import Supergraph.Json.Value
import Supergraph.Language.Grammar
import Supergraph.Language.Lexer
import Supergraph.Language.Token
import Supergraph.Language.Value
import Supergraph.Namespace
import Supergraph.Nodes
import Supergraph.Path
import Supergraph.Proofs.ArgumentDirectives
import Supergraph.Proofs.Classify
import Supergraph.Proofs.ClassifyingVisitor
import Supergraph.Proofs.Consistency.Basic
import Supergraph.Proofs.Consistency.Composites
import Supergraph.Proofs.Consistency.Namespaces
import Supergraph.Proofs.Consistency.Origins
import Supergraph.Proofs.Consistency.Renames
import Supergraph.Proofs.Databases
import Supergraph.Proofs.Decimal.Values
import Supergraph.Proofs.DocumentMaps
import Supergraph.Proofs.Federation.Agreement
import Supergraph.Proofs.Federation.EntryPoints
import Supergraph.Proofs.Federation.Joined
import Supergraph.Proofs.FieldSet.Acceptance
import Supergraph.Proofs.FieldSet.RoundTrip
import Supergraph.Proofs.FieldSet.Selectors
import Supergraph.Proofs.Files.Effects
import Supergraph.Proofs.Files.Places
import Supergraph.Proofs.Files.Trees
import Supergraph.Proofs.Float64.Shortest
import Supergraph.Proofs.InsertionOrder
import Supergraph.Proofs.Introspection.DiskEntries
import Supergraph.Proofs.Introspection.DiskSteps
import Supergraph.Proofs.Introspection.Drafts
import Supergraph.Proofs.Introspection.EntriesApart
import Supergraph.Proofs.Introspection.Fingerprints
import Supergraph.Proofs.Introspection.Independence
import Supergraph.Proofs.Introspection.Offline
import Supergraph.Proofs.Introspection.Polling
import Supergraph.Proofs.Introspection.Retries
import Supergraph.Proofs.Introspection.Steps
import Supergraph.Proofs.Introspection.Transparency
import Supergraph.Proofs.Json.Numbers
import Supergraph.Proofs.Json.Recovery
import Supergraph.Proofs.Json.RoundTrip
import Supergraph.Proofs.Json.Strings
import Supergraph.Proofs.Json.Unambiguity
import Supergraph.Proofs.Language.Closing
import Supergraph.Proofs.Language.Joining
import Supergraph.Proofs.Language.Lexing
import Supergraph.Proofs.Language.Phrases
import Supergraph.Proofs.Language.Reading
import Supergraph.Proofs.Merging
import Supergraph.Proofs.Merging.Algebra
import Supergraph.Proofs.Merging.Runs
import Supergraph.Proofs.Namespace.Agreement
import Supergraph.Proofs.Namespace.Classification
import Supergraph.Proofs.Namespace.Configurations
import Supergraph.Proofs.Namespace.Isolation
import Supergraph.Proofs.Namespace.Names
import Supergraph.Proofs.Namespace.Recovery
import Supergraph.Proofs.Namespace.RootFieldMappings
import Supergraph.Proofs.Namespace.RootFields
import Supergraph.Proofs.Occurrence
import Supergraph.Proofs.Query.Selections
import Supergraph.Proofs.Record.Backends
import Supergraph.Proofs.Record.Composites
import Supergraph.Proofs.Rename.Changes
import Supergraph.Proofs.Rename.Classification
import Supergraph.Proofs.Rename.Configurations
import Supergraph.Proofs.Rename.Edits
import Supergraph.Proofs.Rename.FieldSets
import Supergraph.Proofs.Rename.Fields
import Supergraph.Proofs.Rename.Interchange
import Supergraph.Proofs.Rename.Lookups
import Supergraph.Proofs.Rename.Names
import Supergraph.Proofs.Rename.Resolution
import Supergraph.Proofs.Rename.Reversal
import Supergraph.Proofs.Rename.RootTypes
import Supergraph.Proofs.Rename.Selections
import Supergraph.Proofs.Rename.SourcePaths
import Supergraph.Proofs.Rename.TypeMappings
import Supergraph.Proofs.Rename.Types
import Supergraph.Proofs.Renaming
import Supergraph.Proofs.ReplacedTypes
import Supergraph.Proofs.Results
import Supergraph.Proofs.RootNodes
import Supergraph.Proofs.RootTypes
import Supergraph.Proofs.Routine.Confinement
import Supergraph.Proofs.Routine.Interleaving
import Supergraph.Proofs.ScalarReplacement
import Supergraph.Proofs.Schema.Continuing
import Supergraph.Proofs.Schema.Edits
import Supergraph.Proofs.Schema.Equality
import Supergraph.Proofs.Schema.Joining
import Supergraph.Proofs.TypePlaces
import Supergraph.Proofs.Walk
import Supergraph.Query.Document
import Supergraph.Query.Grammar
import Supergraph.Record.Backend
import Supergraph.Record.Composite
import Supergraph.Record.Engine
import Supergraph.Record.Http
import Supergraph.Rename
import Supergraph.RootTypes
import Supergraph.Routine
import Supergraph.ScalarReplacement
import Supergraph.Schema.Document
import Supergraph.Schema.Fields
import Supergraph.Schema.Grammar
import Supergraph.Schema.Printer
import Supergraph.Schema.TypeNames
import Supergraph.Setting
import Supergraph.SortedMap
import Supergraph.Text.Blank
import Supergraph.Text.Hex
import Supergraph.Text.Lines
import Supergraph.Text.QuotedString
import Supergraph.Walk
