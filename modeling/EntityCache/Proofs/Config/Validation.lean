import EntityCache.Config.Validation

/-!
# What an accepted configuration satisfies

A configuration is accepted if it satisfies every rule (`validate_eq_ok`), so that numbers which
must not be zero are positive (`pos_of_mem_rules`).  The rule for heartbeats is about an interval
that is set; where none is set, a third of the lifetime of a lock is before its end too, except for
the shortest lifetime of all (`heartbeatInterval_lt_iff`).
-/

namespace EntityCache

namespace Config

variable {c : Config}

/-- A configuration is accepted if and only if it breaks no rule. -/
theorem validate_eq_ok : c.validate = .ok () ↔ ∀ rule ∈ c.rules, rule.1 = true := by
  have hfind : c.rules.find? (!·.1) = none ↔ ∀ rule ∈ c.rules, rule.1 = true := by
    simp [List.find?_eq_none]
  rw [← hfind, validate]
  cases c.rules.find? (!·.1) with
  | none => simp
  | some broken => simp

/-- A number that must not be zero is positive. -/
theorem pos_of_mem_rules {n : Nat} {error : ConfigError} (h : c.validate = .ok ())
    (hrule : (n != 0, error) ∈ c.rules) : 0 < n := by
  have hholds := validate_eq_ok.1 h (n != 0, error) hrule
  simpa [Nat.pos_iff_ne_zero] using hholds

/-- The time between two firings is positive. -/
theorem interval_pos (h : c.validate = .ok ()) : 0 < c.scheduler.interval := by
  have hrule : (c.scheduler.interval != 0, ConfigError.invalidInterval c.scheduler.interval) ∈
      c.rules := by simp [rules]
  exact pos_of_mem_rules h hrule

/-- The number of cycles that may run at once is positive. -/
theorem maxConcurrency_pos (h : c.validate = .ok ()) : 0 < c.scheduler.maxConcurrency := by
  have hrule : (c.scheduler.maxConcurrency != 0,
      ConfigError.invalidMaxConcurrency c.scheduler.maxConcurrency) ∈ c.rules := by simp [rules]
  exact pos_of_mem_rules h hrule

/-- The lifetime of a lock is positive. -/
theorem lockLifetime_pos (h : c.validate = .ok ()) : 0 < c.cluster.lockLifetime := by
  have hrule : (c.cluster.lockLifetime != 0,
      ConfigError.invalidLockLifetime c.cluster.lockLifetime) ∈ c.rules := by simp [rules]
  exact pos_of_mem_rules h hrule

/-- A heartbeat that is set comes before the end of the lifetime. -/
theorem heartbeat_lt (h : c.validate = .ok ()) {n : Nat} (hset : c.cluster.heartbeat = some n) :
    0 < n ∧ n < c.cluster.lockLifetime := by
  have hrule := validate_eq_ok.1 h (validHeartbeat c.cluster,
    .invalidHeartbeat (c.cluster.heartbeat.getD 0) c.cluster.lockLifetime) (by simp [rules])
  simpa [validHeartbeat, hset] using hrule

/-- The next heartbeat comes before the end of the lifetime, unless that is one millisecond. -/
theorem heartbeatInterval_lt_iff (h : c.validate = .ok ()) :
    c.cluster.heartbeatInterval < c.cluster.lockLifetime ↔ c.cluster.lockLifetime ≠ 1 := by
  have hpos := lockLifetime_pos h
  rw [ClusterSettings.heartbeatInterval]
  cases hset : c.cluster.heartbeat with
  | none =>
    rw [Option.getD_none]
    omega
  | some n =>
    have hbefore := heartbeat_lt h hset
    rw [Option.getD_some]
    omega

end Config

end EntityCache
