import EntityCache.Error
import EntityCache.Instant
import EntityCache.Logging.Event
import Std.Data.ExtTreeMap

/-!
# Progress of executions in the log

`Progress` logs the callbacks of executions.  It keeps the moment at which an agent's execution last
started, and takes it away when an execution of that agent ends; the event of the end says how much
time has gone by, if a moment was kept.  The time is the span between the two moments in whole
milliseconds, rounded down at the end.
-/

namespace EntityCache

/-- The moments at which executions started, by agent. -/
abbrev Progress := Std.ExtTreeMap String Instant

namespace Progress

/-- An execution starts. -/
def started (now : Instant) (agent : String) (p : Progress) : LogEvent × Progress :=
  (⟨.debug, "Agent execution started", [("agent_type", .string agent)]⟩, p.insert agent now)

/-- The longest time that an event can tell, in milliseconds. -/
def longest : Nat := UInt64.size - 1

/-- The time between two moments, as an event tells it. -/
def duration (start now : Instant) : Json :=
  .number (.integer (min (now.since start).toMilliseconds longest : Nat))

/-- The nanoseconds are subtracted first and divided afterwards. -/
theorem duration_eq (start now : Instant) :
    duration start now =
      .number (.integer (min ((now.total - start.total).toNat / 1000000) longest : Nat)) := by
  rw [duration, Duration.toMilliseconds_eq, Instant.total_since]

/-- The time since the kept start, as a named value. -/
def elapsed (now : Instant) (agent : String) (p : Progress) : List (String × Json) :=
  match p[agent]? with
  | some start => [("elapsed_ms", duration start now)]
  | none => []

/-- An execution ends well. -/
def completed (now : Instant) (agent : String) (p : Progress) : LogEvent × Progress :=
  (⟨.info, "Agent execution completed", ("agent_type", .string agent) :: p.elapsed now agent⟩,
    p.erase agent)

/-- An execution fails. -/
def failed (now : Instant) (agent : String) (error : ErrorChain) (p : Progress) :
    LogEvent × Progress :=
  (⟨.warn, "Agent execution failed",
    ("agent_type", .string agent) :: p.elapsed now agent ++
      [("error", .string (": ".intercalate error))]⟩,
    p.erase agent)

end Progress

end EntityCache
