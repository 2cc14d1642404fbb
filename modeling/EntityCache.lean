import EntityCache.Cache.Deployment
import EntityCache.Cluster.Fleet
import EntityCache.Collection
import EntityCache.Config.Loading
import EntityCache.Identity.Callers
import EntityCache.Logging.Logger
import EntityCache.Logging.Progress
import EntityCache.Schedule.Handle
import EntityCache.Storage.Backends
import EntityCache.Proofs.Cache.Backends
import EntityCache.Proofs.Cache.Batching
import EntityCache.Proofs.Cache.Collected
import EntityCache.Proofs.Cache.Composite
import EntityCache.Proofs.Cache.Concurrent
import EntityCache.Proofs.Cache.Cycles
import EntityCache.Proofs.Cache.Interruption
import EntityCache.Proofs.Cache.Isolation
import EntityCache.Proofs.Cache.Listing
import EntityCache.Proofs.Cache.Nested
import EntityCache.Proofs.Cache.Order
import EntityCache.Proofs.Cache.Partition
import EntityCache.Proofs.Cache.Provenance
import EntityCache.Proofs.Cache.Readability
import EntityCache.Proofs.Cache.Recovery
import EntityCache.Proofs.Cache.Replies
import EntityCache.Proofs.Cache.Wildcards
import EntityCache.Proofs.Cluster.Abandoned
import EntityCache.Proofs.Cluster.Departures
import EntityCache.Proofs.Cluster.Endings
import EntityCache.Proofs.Cluster.Heartbeats
import EntityCache.Proofs.Cluster.Overlap
import EntityCache.Proofs.Config.Loading
import EntityCache.Proofs.Config.Schedulers
import EntityCache.Proofs.Glob.Expression
import EntityCache.Proofs.Identity.Caching
import EntityCache.Proofs.Lock.Agreement
import EntityCache.Proofs.Lock.History
import EntityCache.Proofs.Schedule.Registry
import EntityCache.Proofs.Schema.Migrations
import EntityCache.Proofs.Setting.Overlay
import EntityCache.Proofs.Setting.Sources
import EntityCache.Proofs.Store.Agreement
import EntityCache.Proofs.Store.Chunks
import EntityCache.Proofs.Logging.Durations
import EntityCache.Proofs.Logging.Retention
import EntityCache.Proofs.Logging.Startup
import EntityCache.Proofs.Schema.Transactions
