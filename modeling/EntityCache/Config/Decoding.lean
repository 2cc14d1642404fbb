import EntityCache.Config.Basic
import EntityCache.Json.Reader
import EntityCache.Logging.Options
import EntityCache.Setting.Decoding

/-!
# Reading the configuration

`Config.ofSetting?` reads all settings from a tree, `LogOptions.ofSetting?` the options of the log.
Unknown fields are ignored, missing ones have their defaults on the machine at hand.
-/

namespace EntityCache

open Setting

/-- The largest 16-bit number. -/
def largest16 : Nat := 0xffff

/-- The largest 32-bit number. -/
def largest32 : Nat := 0xffffffff

/-- The largest 64-bit number. -/
def largest64 : Nat := 0xffffffffffffffff

/-- Reads the settings of the cache. -/
def CacheSettings.ofSetting? (r : Reading) (s : Setting) : Option CacheSettings := do
  let d : CacheSettings := {}
  let s ← section? r ["prefix"] s
  let keyPrefix ← s.get? "prefix" d.keyPrefix text?
  return { keyPrefix }

/-- Reads the settings of a scheduler. -/
def SchedulerSettings.ofSetting? (processors : Processors) (r : Reading) (s : Setting) :
    Option SchedulerSettings := do
  let d := SchedulerSettings.default processors
  let s ← section? r ["interval_ms", "max_concurrency", "overlap_policy"] s
  let interval ← s.get? "interval_ms" d.interval (natural? largest64)
  let maxConcurrency ← s.get? "max_concurrency" d.maxConcurrency (natural? largest64)
  let overlap ← s.get? "overlap_policy" d.overlap
    (choice? r [.allow, .skip] OverlapPolicy.name)
  return { interval, maxConcurrency, overlap }

/-- Reads the settings of a shared scheduler. -/
def ClusterSettings.ofSetting? (r : Reading) (s : Setting) : Option ClusterSettings := do
  let d : ClusterSettings := {}
  let s ← section? r ["lock_ttl_ms", "heartbeat_interval_ms", "lock_prefix"] s
  let lockLifetime ← s.get? "lock_ttl_ms" d.lockLifetime (natural? largest64)
  let heartbeat ← s.get? "heartbeat_interval_ms" d.heartbeat (optional? (natural? largest64))
  let lockPrefix ← s.get? "lock_prefix" d.lockPrefix text?
  return { lockLifetime, heartbeat, lockPrefix }

/-- Reads the settings of the search for a node's address. -/
def IdentitySettings.ofSetting? (r : Reading) (s : Setting) : Option IdentitySettings := do
  let d : IdentitySettings := {}
  let s ← section? r
    ["validation_host", "validation_port", "probe_timeout_ms", "refresh_interval_secs"] s
  let validationHost ← s.get? "validation_host" d.validationHost text?
  let validationPort ← s.get? "validation_port" d.validationPort (natural? largest16)
  let probeTimeout ← s.get? "probe_timeout_ms" d.probeTimeout (natural? largest64)
  let refreshSeconds ← s.get? "refresh_interval_secs" d.refreshSeconds (natural? largest64)
  return { validationHost, validationPort, probeTimeout, refreshSeconds }

/-- Reads the settings of the store. -/
def StoreSettings.ofSetting? (r : Reading) (s : Setting) : Option StoreSettings := do
  let d : StoreSettings := {}
  let s ← section? r ["backend", "database_path", "max_connections", "busy_timeout_ms"] s
  let kind ← s.get? "backend" d.kind (choice? r [.memory, .database] StoreKind.name)
  let databasePath ← s.get? "database_path" d.databasePath text?
  let maxConnections ← s.get? "max_connections" d.maxConnections (natural? largest32)
  let busyTimeout ← s.get? "busy_timeout_ms" d.busyTimeout (natural? largest64)
  return { kind, databasePath, maxConnections, busyTimeout }

/-- Reads the settings of the log. -/
def LoggingSettings.ofSetting? (r : Reading) (s : Setting) : Option LoggingSettings := do
  let d : LoggingSettings := {}
  let s ← section? r ["level", "format", "log_dir", "retention_days"] s
  let level ← s.get? "level" d.level text?
  let format ← s.get? "format" d.format text?
  let directory ← s.get? "log_dir" d.directory (optional? text?)
  let retentionDays ← s.get? "retention_days" d.retentionDays (natural? largest32)
  return { level, format, directory, retentionDays }

/-- Reads all settings. -/
def Config.ofSetting? (processors : Processors) (r : Reading) (s : Setting) : Option Config := do
  let s ← section? r ["cache", "scheduler", "cluster", "identity", "store", "logging"] s
  let cache ← s.get? "cache" {} (CacheSettings.ofSetting? r)
  let scheduler ← s.get? "scheduler" (.default processors)
    (SchedulerSettings.ofSetting? processors r)
  let cluster ← s.get? "cluster" {} (ClusterSettings.ofSetting? r)
  let identity ← s.get? "identity" {} (IdentitySettings.ofSetting? r)
  let store ← s.get? "store" {} (StoreSettings.ofSetting? r)
  let logging ← s.get? "logging" {} (LoggingSettings.ofSetting? r)
  return { cache, scheduler, cluster, identity, store, logging }

/-- The fields of the log options in their order. -/
def LogOptions.fieldNames : List String :=
  ["level", "format", "log_dir", "enable_stdout", "rotation", "retention_days"]

/-- Whether a list of fields is long enough to name the directory, which a list must do. -/
def LogOptions.namesDirectory : Setting → Bool
  | .list items => 3 ≤ items.length
  | _ => true

/-- Reads the options of the log. -/
def LogOptions.ofSetting? (r : Reading) (setting : Setting) : Option LogOptions := do
  let d : LogOptions := {}
  let s ← section? r fieldNames setting
  if !namesDirectory setting then none
  let level ← s.get? "level" d.level text?
  let format ← s.get? "format" d.format (choice? r LogFormat.all LogFormat.name)
  let directory ← s.get? "log_dir" d.directory (optional? text?)
  let toStdout ← s.get? "enable_stdout" d.toStdout bool?
  let rotation ← s.get? "rotation" d.rotation (choice? r LogRotation.all LogRotation.name)
  let retentionDays ← s.get? "retention_days" d.retentionDays (natural? largest32)
  return { level, format, directory, toStdout, rotation, retentionDays }

/-- Reads all settings from JSON text. -/
def Config.readJson? (processors : Processors) (text : String) : Option Config :=
  (Document.read? text).bind fun d => ofSetting? processors .exact (Setting.ofDocument d)

end EntityCache
