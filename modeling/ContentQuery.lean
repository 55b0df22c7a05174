import ContentQuery.Config
import ContentQuery.Config.Settings
import ContentQuery.Entries
import ContentQuery.Envelope
import ContentQuery.Error
import ContentQuery.Filter
import ContentQuery.Filter.Accepts
import ContentQuery.Filter.Merge
import ContentQuery.Filter.Parse
import ContentQuery.Filter.Render
import ContentQuery.Filter.Text
import ContentQuery.Json
import ContentQuery.Json.Reading
import ContentQuery.Key
import ContentQuery.Logging
import ContentQuery.Number.Decimal128
import ContentQuery.Number.Double
import ContentQuery.Ordered
import ContentQuery.Path
import ContentQuery.Pattern
import ContentQuery.Pattern.Category
import ContentQuery.Pattern.CharSet
import ContentQuery.Pattern.Folding
import ContentQuery.Pattern.Language
import ContentQuery.Pattern.Reading
import ContentQuery.Projection
import ContentQuery.Proofs.Accumulation
import ContentQuery.Proofs.AnyStore
import ContentQuery.Proofs.ArenaInvariants
import ContentQuery.Proofs.Assembly
import ContentQuery.Proofs.Avoidance
import ContentQuery.Proofs.Calls
import ContentQuery.Proofs.Coherence
import ContentQuery.Proofs.CopiedPaths
import ContentQuery.Proofs.Cycles
import ContentQuery.Proofs.Deferred
import ContentQuery.Proofs.DepthFirst
import ContentQuery.Proofs.DescriptorPaths
import ContentQuery.Proofs.DirectJoin
import ContentQuery.Proofs.Embedding
import ContentQuery.Proofs.Entries
import ContentQuery.Proofs.EqualValues
import ContentQuery.Proofs.Exclusion
import ContentQuery.Proofs.Failure
import ContentQuery.Proofs.FieldInvariants
import ContentQuery.Proofs.Grammar
import ContentQuery.Proofs.Growth
import ContentQuery.Proofs.Hidden
import ContentQuery.Proofs.IncludePaths
import ContentQuery.Proofs.Increasing
import ContentQuery.Proofs.KeptKeys
import ContentQuery.Proofs.KeyedUnion
import ContentQuery.Proofs.LevelCalls
import ContentQuery.Proofs.Levels
import ContentQuery.Proofs.Lineage
import ContentQuery.Proofs.LongestPath
import ContentQuery.Proofs.Lookup
import ContentQuery.Proofs.MergedFilters
import ContentQuery.Proofs.Occurrences
import ContentQuery.Proofs.OverlappingPaths
import ContentQuery.Proofs.Pages
import ContentQuery.Proofs.PathRegions
import ContentQuery.Proofs.PathSegments
import ContentQuery.Proofs.PayloadFilter
import ContentQuery.Proofs.PayloadPaths
import ContentQuery.Proofs.ProjectedKeys
import ContentQuery.Proofs.ProjectedPaths
import ContentQuery.Proofs.RangeOperators
import ContentQuery.Proofs.ReadBack
import ContentQuery.Proofs.Regular
import ContentQuery.Proofs.Replacements
import ContentQuery.Proofs.Requests
import ContentQuery.Proofs.RoundTrip
import ContentQuery.Proofs.Run
import ContentQuery.Proofs.ScannedPlaces
import ContentQuery.Proofs.SchemaLocales
import ContentQuery.Proofs.Scope
import ContentQuery.Proofs.SemiJoin
import ContentQuery.Proofs.SingleLookups
import ContentQuery.Proofs.Slots
import ContentQuery.Proofs.StableSort
import ContentQuery.Proofs.Sweep
import ContentQuery.Proofs.Targets
import ContentQuery.Proofs.Truncation
import ContentQuery.Proofs.Twins
import ContentQuery.Proofs.ValueOrder
import ContentQuery.Query.Call
import ContentQuery.Query.Compiled
import ContentQuery.Query.State
import ContentQuery.Query.Terminal
import ContentQuery.Reference.Batch
import ContentQuery.Reference.Descriptor
import ContentQuery.Reference.Expansion
import ContentQuery.Reference.Mode
import ContentQuery.Reference.Scan
import ContentQuery.Reference.SemiJoin
import ContentQuery.Sorting
import ContentQuery.Store
import ContentQuery.Store.Memory
import ContentQuery.StoredDocument
import ContentQuery.Text.Blank
import ContentQuery.Text.Numeral
import ContentQuery.Toml
import ContentQuery.Toml.Reading
import ContentQuery.Value
import ContentQuery.Value.Json
import ContentQuery.Value.Order
