import Ladybug.Sqlite.LeafLayout
import Ladybug.Sqlite.OverflowChanges
import Ladybug.Sqlite.EdgeSync
import Ladybug.Sqlite.SyncTail
import Ladybug.Fts.FtsAgreement
import Ladybug.Fts.FtsStatsCorrect
import Ladybug.Vector.SearchCorrect
import Ladybug.Vector.QuantizedTable
import Ladybug.Vector.QuantizedCacheCorrect
import Ladybug.Httpfs.S3Buffers
import Ladybug.Httpfs.S3Assembly
import Ladybug.Httpfs.CachedFilesCorrect
import Ladybug.Httpfs.S3Glob
import Ladybug.Gql.NumberOrder
import Ladybug.Gql.Namespaces
import Ladybug.Gql.CatalogBooks
import Ladybug.Gql.CatalogInStep
import Ladybug.Gql.SourceSpans
import Ladybug.Foreign.NodeIdentity
import Ladybug.Sqlite.CursorLiterals
import Ladybug.Sqlite.WalChecksums
import Ladybug.Sqlite.DecoderSafety
import Ladybug.Algo.WeakComponents
import Ladybug.Sqlite.BatchConflicts
import Ladybug.Algo.KCoreCorrect
import Ladybug.Sqlite.FailedCalls
import Ladybug.Sqlite.RowidSourcing
import Ladybug.Sqlite.LostOps
import Ladybug.Algo.SpanningForestCorrect
import Ladybug.Algo.CsrBridge
import Ladybug.Algo.LouvainCorrect
import Ladybug.Fts.QueryFtsCorrect
import Ladybug.Fts.WildcardTerms
import Ladybug.Httpfs.LikesIndices
import Ladybug.Httpfs.PostRequests
import Ladybug.Httpfs.ReadEnds
import Ladybug.Httpfs.RedirectChains
import Ladybug.Lance.NodeMorsels
import Ladybug.Vector.DotExact
import Ladybug.Vector.EmbeddingSpace
import Ladybug.Vector.GreedyDescent
import Ladybug.Vector.LayerCorrect
import Ladybug.Json.ArrayScan
import Ladybug.Lance.RelEdges
import Ladybug.Foreign.PgColumns
import Ladybug.Gql.DeepEquals
import Ladybug.Gql.Junctions
import Ladybug.Gql.LabelMembership
import Ladybug.Gql.SetStatement
import Ladybug.Gql.SumAvg
import Ladybug.Json.JsonContains
import Ladybug.Json.ValueEnds
import Ladybug.Neo4j.Migrate
import Ladybug.Algo.IdRanges
import Ladybug.Llm.ExtractRecord
import Ladybug.Vector.CompressedOffsets
