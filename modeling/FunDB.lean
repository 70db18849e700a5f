import FunDB.Foundation.ByteSlices
import FunDB.Foundation.Execution
import FunDB.Foundation.Overlay
import FunDB.Foundation.KeyedList
import FunDB.Foundation.OrderStatistic
import FunDB.Foundation.IndexedLog
import FunDB.Foundation.HashRing
import FunDB.Foundation.IntervalChain
import FunDB.Foundation.Framing
import FunDB.Foundation.Buckets
import FunDB.Foundation.GraphSearch
import FunDB.Core.Record
import FunDB.Core.BloomFilter
import FunDB.Core.CausalGraph
import FunDB.Storage.MemTable
import FunDB.Storage.Sstable
import FunDB.Storage.LsmTree
import FunDB.Storage.Wal
import FunDB.Storage.WalFrames
import FunDB.Storage.LsmReads
import FunDB.Storage.Refinement
import FunDB.Storage.Recovery
import FunDB.Storage.WriteOrder
import FunDB.Storage.Scan
import FunDB.Storage.FlushTasks
import FunDB.Storage.Mvcc
import FunDB.Storage.VersionChains
import FunDB.Storage.SnapshotReads
import FunDB.Raft.Types
import FunDB.Raft.Storage
import FunDB.Raft.State
import FunDB.Raft.Node
import FunDB.Raft.Election
import FunDB.Raft.HardState
import FunDB.Raft.LogDurability
import FunDB.Raft.Proposals
import FunDB.Raft.Sessions
import FunDB.Raft.Leadership
import FunDB.Raft.Commit
import FunDB.Raft.Replication
import FunDB.Raft.EntryLoops
import FunDB.Raft.CommitOrder
import FunDB.Raft.SnapshotCoverage
import FunDB.Raft.SnapshotPosition
import FunDB.Raft.FollowerLog
import FunDB.Raft.FollowerCommit
import FunDB.Raft.Cluster
import FunDB.Raft.ClusterLogs
import FunDB.Cluster.ShardMap
import FunDB.Cluster.Topology
import FunDB.Cluster.ShardOwnership
import FunDB.Cluster.KeyMoves
import FunDB.Cluster.MigrationReports
import FunDB.Cluster.DistQuery
import FunDB.Cluster.WriteRouting
import FunDB.Sql.Token
import FunDB.Sql.Lexer
import FunDB.Sql.Scanner
import FunDB.Sql.LexerSafety
import FunDB.Sql.Ast
import FunDB.Sql.Parser
import FunDB.Sql.ParseExpr
import FunDB.Sql.ParseSelect
import FunDB.Sql.ParseStatement
import FunDB.Sql.ParserSteps
import FunDB.Sql.ExprPrinter
import FunDB.Sql.PrintedTokens
import FunDB.Sql.PrintedText
import FunDB.Sql.LogicalPlan
import FunDB.Executor.Scan
import FunDB.Executor.Filter
import FunDB.Executor.Sort
import FunDB.Executor.Execute
import FunDB.Optimizer.Rules
import FunDB.Optimizer.Preservation
import FunDB.Indexes.CausalDag
import FunDB.Causal.Tier1
import FunDB.Indexes.ClosureCache
import FunDB.Indexes.CausalPaths
import FunDB.Foundation.Walks
import FunDB.Foundation.StrongestWalks
import FunDB.Foundation.StackOrder
import FunDB.Causal.Trace
import FunDB.Indexes.Graph
import FunDB.Foundation.TopologicalSort
import FunDB.Causal.Scm
import FunDB.Causal.ScmConstruction
import FunDB.Causal.Worlds
import FunDB.Causal.Interventions
import FunDB.Causal.PcDiscovery
import FunDB.Causal.Ensemble
import FunDB.Causal.Granger
import FunDB.Indexes.Hnsw
import FunDB.Indexes.HnswSearch
import FunDB.Indexes.HnswLinks
import FunDB.Indexes.HnswInvariant
import FunDB.Indexes.HnswResults
import FunDB.Indexes.HnswCalls
import FunDB.Indexes.HnswExploration
import FunDB.Indexes.HnswCompaction
import FunDB.Indexes.HnswTombstones
import FunDB.Indexes.HnswCount
import FunDB.Foundation.Utf8
import FunDB.Protocol.PgWire
import FunDB.Cli.Connection
import FunDB.Protocol.WireAgreement
import FunDB.Sql.Binder
import FunDB.Executor.Pipeline
import FunDB.Sql.ParserPost
import FunDB.Server.Handler
import FunDB.Server.Shortcuts
import FunDB.Server.InsertTag
import FunDB.Protocol.Extended
import FunDB.Protocol.ExtendedRoundTrip
import FunDB.Protocol.Copy
import FunDB.Cli.HostileBytes
import FunDB.Foundation.BinarySearch
import FunDB.Storage.SstableFile
import FunDB.Storage.WrittenReads
import FunDB.Raft.FailedProposals
import FunDB.Foundation.Ranking
import FunDB.Cluster.Replication
import FunDB.Cluster.RoutableShards
import FunDB.Storage.BlockCache
import FunDB.Storage.StaleBlocks
import FunDB.Storage.TableExtent
import FunDB.Storage.WalPrefix
import FunDB.Core.Page
import FunDB.Foundation.ThreeValued
import FunDB.Executor.Comparisons
import FunDB.Optimizer.FoldedFilters
import FunDB.Executor.FilterSoundness
import FunDB.Foundation.Extremum
import FunDB.Cluster.Aggregation
import FunDB.Cluster.GlobalRanking
import FunDB.Server.Changes
import FunDB.Server.ResultRows
import FunDB.Sql.Translations
import FunDB.Sql.SelectClauses
import FunDB.Sql.NumericOptions
import FunDB.Storage.WriteFaults
import FunDB.Executor.FallibleExecution
import FunDB.Executor.InsertAtomicity
import FunDB.Executor.AppendOnly
import FunDB.Server.Runs
import FunDB.Server.Security
import FunDB.Optimizer.Pushdown
import FunDB.Optimizer.Cost
import FunDB.Optimizer.Selectivity
import FunDB.Optimizer.PlannedSources
import FunDB.Foundation.Greedy
import FunDB.Cognitive.ContextSelection
import FunDB.Cognitive.Coherence
import FunDB.Cognitive.Confidence
import FunDB.Executor.NumericOrder
import FunDB.Foundation.StableSort
import FunDB.Executor.SortOrder
import FunDB.Foundation.LastingEntries
import FunDB.Raft.StoredLog
import FunDB.Foundation.Csv
import FunDB.Cli.Display
import FunDB.Foundation.Json
import FunDB.Cli.JsonOutput
import FunDB.Foundation.Thinning
import FunDB.Cognitive.Memory
import FunDB.Cognitive.Consolidation
import FunDB.Cognitive.RecallIsolation
import FunDB.Foundation.Histogram
import FunDB.Indexes.Confidence
import FunDB.Foundation.CheckedAccess
import FunDB.Indexes.PqEncoder
import FunDB.Foundation.Promotion
import FunDB.Learning.Ltr
import FunDB.Foundation.Sines
import FunDB.Foundation.Md5
import FunDB.Cli.PasswordHash
import FunDB.Cli.Commands
import FunDB.Cli.Repl
import FunDB.Semantic.Intent
import FunDB.Protocol.Session
import FunDB.Sql.ParserTermination
import FunDB.Sql.SelectTermination
import FunDB.Sql.StatementTermination
