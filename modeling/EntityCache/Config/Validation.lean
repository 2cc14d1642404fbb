import EntityCache.Config.Basic
import EntityCache.Text.Quoted

/-!
# Which configurations are accepted

`Config.validate` finds the first rule that a configuration breaks, in a fixed order: cache,
scheduler, cluster, identity, store, log.
-/

namespace EntityCache

/-- A rule that a configuration breaks. -/
inductive ConfigError where
  | invalidCachePrefix (text : String)
  | invalidInterval (milliseconds : Nat)
  | invalidMaxConcurrency (count : Nat)
  | invalidLockLifetime (milliseconds : Nat)
  | invalidHeartbeat (heartbeat lifetime : Nat)
  | emptyLockPrefix
  | invalidProbeTimeout (milliseconds : Nat)
  | emptyDatabasePath
  | invalidMaxConnections (count : Nat)
  | invalidLogLevel (text : String)
  | invalidLogFormat (text : String)
deriving DecidableEq, Repr

/-- The text of a broken rule. -/
def ConfigError.message : ConfigError → String
  | invalidCachePrefix text =>
    "Invalid cache prefix: " ++ Text.quote text ++ ". Must be non-empty and contain no ':'"
  | invalidInterval n => "Invalid scheduler interval_ms: " ++ Nat.repr n ++ ". Must be positive"
  | invalidMaxConcurrency n => "Invalid max_concurrency: " ++ Nat.repr n ++ ". Must be at least 1"
  | invalidLockLifetime n => "Invalid lock_ttl_ms: " ++ Nat.repr n ++ ". Must be positive"
  | invalidHeartbeat n lifetime =>
    "Invalid heartbeat_interval_ms: " ++ Nat.repr n ++
      ". Must be positive and less than lock_ttl_ms (" ++ Nat.repr lifetime ++ ")"
  | emptyLockPrefix => "Lock prefix cannot be empty"
  | invalidProbeTimeout n => "Invalid probe_timeout_ms: " ++ Nat.repr n ++ ". Must be positive"
  | emptyDatabasePath => "Database path cannot be empty"
  | invalidMaxConnections n => "Invalid max_connections: " ++ Nat.repr n ++ ". Must be at least 1"
  | invalidLogLevel text =>
    "Invalid log level: " ++ text ++ ". Must be one of: trace, debug, info, warn, error"
  | invalidLogFormat text => "Invalid log format: " ++ text ++ ". Must be one of: json, pretty"

/-- A key prefix has at least one character and no colon. -/
def validKeyPrefix (keyPrefix : String) : Bool :=
  !keyPrefix.isEmpty && !keyPrefix.toList.contains ':'

/-- A heartbeat comes before the lock expires. -/
def validHeartbeat (c : ClusterSettings) : Bool :=
  c.heartbeat.all fun n => decide (0 < n ∧ n < c.lockLifetime)

/-- The levels that a configuration may name. -/
def configLevels : List String := ["trace", "debug", "info", "warn", "error"]

/-- The formats that a configuration may name. -/
def configFormats : List String := ["json", "pretty"]

namespace Config

/-- The rules and the errors of those that break them, in their order. -/
def rules (c : Config) : List (Bool × ConfigError) :=
  [(validKeyPrefix c.cache.keyPrefix, .invalidCachePrefix c.cache.keyPrefix),
    (c.scheduler.interval != 0, .invalidInterval c.scheduler.interval),
    (c.scheduler.maxConcurrency != 0, .invalidMaxConcurrency c.scheduler.maxConcurrency),
    (c.cluster.lockLifetime != 0, .invalidLockLifetime c.cluster.lockLifetime),
    (validHeartbeat c.cluster, .invalidHeartbeat (c.cluster.heartbeat.getD 0) c.cluster.lockLifetime),
    (!c.cluster.lockPrefix.isEmpty, .emptyLockPrefix),
    (c.identity.probeTimeout != 0, .invalidProbeTimeout c.identity.probeTimeout),
    (!c.store.databasePath.isEmpty, .emptyDatabasePath),
    (c.store.maxConnections != 0, .invalidMaxConnections c.store.maxConnections),
    (configLevels.contains c.logging.level, .invalidLogLevel c.logging.level),
    (configFormats.contains c.logging.format, .invalidLogFormat c.logging.format)]

/-- The first broken rule, if any. -/
def validate (c : Config) : Except ConfigError Unit :=
  match c.rules.find? (!·.1) with
  | some (_, error) => .error error
  | none => .ok ()

end Config

end EntityCache
