import ReputationFirewall.Shared.BigEndian
import ReputationFirewall.Shared.LittleEndian
import ReputationFirewall.Shared.OnesComplement
import ReputationFirewall.Shared.Buffers
import ReputationFirewall.Shared.Bytewise
import ReputationFirewall.Shared.KeyedStore
import ReputationFirewall.Shared.Changes
import ReputationFirewall.Shared.Collect
import ReputationFirewall.Shared.CounterVec
import ReputationFirewall.Shared.GaugeVec
import ReputationFirewall.Shared.Interleaving
import ReputationFirewall.Shared.Prefix
import ReputationFirewall.Shared.Ranking
import ReputationFirewall.Shared.Retries
import ReputationFirewall.Shared.Runs
import ReputationFirewall.Shared.Scans
import ReputationFirewall.Shared.Text
import ReputationFirewall.Shared.NetAddr
import ReputationFirewall.Common
import ReputationFirewall.Rules.RuleSet
import ReputationFirewall.Rules.Loader
import ReputationFirewall.Rules.Provenance
import ReputationFirewall.Rules.UniqueCount
import ReputationFirewall.Maps.DifferentialSync
import ReputationFirewall.Maps.MapManager
import ReputationFirewall.Maps.SyncRuns
import ReputationFirewall.Maps.Operations
import ReputationFirewall.Maps.SharedKeys
import ReputationFirewall.Maps.InsertFailures
import ReputationFirewall.Maps.Idempotence
import ReputationFirewall.Maps.Capacity
import ReputationFirewall.Maps.MapLock
import ReputationFirewall.Xdp.Headers
import ReputationFirewall.Xdp.Program
import ReputationFirewall.Xdp.ReferenceParser
import ReputationFirewall.Xdp.Grammar
import ReputationFirewall.Xdp.Refinement
import ReputationFirewall.Xdp.UpdateGap
import ReputationFirewall.Xdp.Counters
import ReputationFirewall.Xdp.Fragments
import ReputationFirewall.EndToEnd
import ReputationFirewall.HotReload
import ReputationFirewall.Firehol.Entry
import ReputationFirewall.Firehol.SyncManager
import ReputationFirewall.Firehol.RuleCounts
import ReputationFirewall.Firehol.Targets
import ReputationFirewall.Firehol.PunchOut
import ReputationFirewall.Firehol.MaximalBlocks
import ReputationFirewall.Firehol.LineReader
import ReputationFirewall.Firehol.FileParser
import ReputationFirewall.Firehol.LineVisitor
import ReputationFirewall.Firehol.Spool
import ReputationFirewall.Firehol.Pipeline
import ReputationFirewall.Firehol.Items
import ReputationFirewall.Firehol.Accounting
import ReputationFirewall.Firehol.Completeness
import ReputationFirewall.Firehol.SingleFile
import ReputationFirewall.Firehol.Categories
import ReputationFirewall.Firehol.HeaderFields
import ReputationFirewall.Firehol.Provenance
import ReputationFirewall.Firehol.CallRefinement
import ReputationFirewall.Firehol.EntryOrigins
import ReputationFirewall.Firehol.Progress
import ReputationFirewall.Firehol.Import
import ReputationFirewall.Firehol.ContextStore
import ReputationFirewall.Firehol.Registry
import ReputationFirewall.Firehol.OrderedContexts
import ReputationFirewall.Firehol.StoredImport
import ReputationFirewall.Firehol.SpooledImport
import ReputationFirewall.Firehol.Lookup
import ReputationFirewall.Firehol.IndexBuilders
import ReputationFirewall.Firehol.RuleBlocks
import ReputationFirewall.Firehol.RuleInfo
import ReputationFirewall.Firehol.DirectoryImport
import ReputationFirewall.Firehol.BlockList
import ReputationFirewall.Firehol.GitRepository
import ReputationFirewall.Firehol.Scheduler
import ReputationFirewall.Firehol.SkippedReloads
import ReputationFirewall.TokenParsers
import ReputationFirewall.RuleIds
import ReputationFirewall.RingBuf.Consumer
import ReputationFirewall.RingBuf.Wire
import ReputationFirewall.RingBuf.Attribution
import ReputationFirewall.Metrics.TopN
import ReputationFirewall.Metrics.TopNExport
import ReputationFirewall.Metrics.TopNSelection
import ReputationFirewall.Metrics.ExactExport
import ReputationFirewall.Metrics.PacketTotals
import ReputationFirewall.Metrics.MapGauges
import ReputationFirewall.Metrics.FeedGauges
import ReputationFirewall.Metrics.CronCounters
import ReputationFirewall.RingBuf.ConsumerLoop
import ReputationFirewall.RingBuf.StorageModes
import ReputationFirewall.Enforcement
import ReputationFirewall.Startup
import ReputationFirewall.DropReasons
import ReputationFirewall.DaemonRuns
import ReputationFirewall.IgnoreList
import ReputationFirewall.ScheduleIndependence
import ReputationFirewall.Scripts.Packet
import ReputationFirewall.Scripts.Layout
import ReputationFirewall.Scripts.Checksums
import ReputationFirewall.Scripts.Traffic
