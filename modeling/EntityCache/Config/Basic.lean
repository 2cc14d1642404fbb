/-!
# Settings

`Config` holds all settings, a section for each part.  Every field has a default, and so has every
section; the defaults depend on the machine in one place, the number of its processors
(`Config.default`).  Times are in milliseconds unless a field's name says otherwise.
-/

namespace EntityCache

/-- Settings of the key-value cache. -/
structure CacheSettings where
  /-- What every key of the cache begins with. -/
  keyPrefix : String := "fleetcache"
deriving DecidableEq, Repr

/-- What happens to a firing while the cycle before it is still running. -/
inductive OverlapPolicy where
  /-- A new cycle starts; cycles of one agent may overlap. -/
  | allow
  /-- The firing is skipped. -/
  | skip
deriving DecidableEq, Repr

/-- The name of a policy. -/
def OverlapPolicy.name : OverlapPolicy → String
  | allow => "allow"
  | skip => "skip"

/-- The processors that a machine says it has; where it does not say, there is one. -/
structure Processors where
  count : Nat
  count_pos : 0 < count
  count_le : count ≤ 0xffffffffffffffff

/-- A single processor. -/
def Processors.one : Processors := ⟨1, by decide, by decide⟩

/-- Settings of a scheduler. -/
structure SchedulerSettings where
  /-- The time between two firings of an agent. -/
  interval : Nat := 60000
  /-- The number of cycles that may run at once. -/
  maxConcurrency : Nat
  overlap : OverlapPolicy := .allow
deriving DecidableEq, Repr

/-- The defaults of a scheduler: one cycle for each processor. -/
def SchedulerSettings.default (processors : Processors) : SchedulerSettings where
  maxConcurrency := processors.count

/-- Settings of a scheduler that shares its agents with other nodes. -/
structure ClusterSettings where
  /-- The lifetime of an agent's lock. -/
  lockLifetime : Nat := 300000
  /-- The time between two extensions of a lock. -/
  heartbeat : Option Nat := none
  /-- What the name of a lock begins with; the agent follows. -/
  lockPrefix : String := "agent-lock:"
deriving DecidableEq, Repr

/-- The time between two extensions of a lock: a third of its lifetime if none is set, and at least
one millisecond. -/
def ClusterSettings.heartbeatInterval (c : ClusterSettings) : Nat :=
  max (c.heartbeat.getD (c.lockLifetime / 3)) 1

/-- Settings of the search for a node's address. -/
structure IdentitySettings where
  /-- The host that an address has to reach. -/
  validationHost : String := "www.google.com"
  validationPort : Nat := 80
  probeTimeout : Nat := 125
  /-- The age, in seconds, at which an identity is computed again. -/
  refreshSeconds : Nat := 30
deriving DecidableEq, Repr

/-- Where the entities and locks are kept. -/
inductive StoreKind where
  | memory
  | database
deriving DecidableEq, Repr

/-- The name of a kind of store. -/
def StoreKind.name : StoreKind → String
  | memory => "memory"
  | database => "sqlite"

/-- Settings of the store. -/
structure StoreSettings where
  kind : StoreKind := .memory
  databasePath : String := ".fleetcache/cache.db"
  maxConnections : Nat := 10
  busyTimeout : Nat := 5000
deriving DecidableEq, Repr

/-- The pool of connections to a database. -/
structure PoolSettings where
  maxConnections : Nat
  busyTimeout : Nat
deriving DecidableEq, Repr

/-- The pool of a store; it has at least one connection. -/
def StoreSettings.pool (s : StoreSettings) : PoolSettings := ⟨max s.maxConnections 1, s.busyTimeout⟩

/-- Settings of the log, as they are written. -/
structure LoggingSettings where
  level : String := "info"
  format : String := "json"
  directory : Option String := none
  retentionDays : Nat := 30
deriving DecidableEq, Repr

/-- All settings. -/
structure Config where
  cache : CacheSettings := {}
  scheduler : SchedulerSettings
  cluster : ClusterSettings := {}
  identity : IdentitySettings := {}
  store : StoreSettings := {}
  logging : LoggingSettings := {}
deriving DecidableEq, Repr

/-- All defaults. -/
def Config.default (processors : Processors) : Config where
  scheduler := .default processors

end EntityCache
