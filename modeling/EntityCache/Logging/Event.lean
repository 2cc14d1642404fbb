import EntityCache.Json.Basic

/-!
# Log events

A `LogEvent` has a level, a message and named values.  Levels are ordered by weight; a log that is
set to a level keeps the events that weigh at least as much.
-/

namespace EntityCache

/-- The level of an event. -/
inductive LogLevel where
  | trace | debug | info | warn | error
deriving DecidableEq, Repr

namespace LogLevel

/-- All levels, lightest first. -/
def all : List LogLevel := [trace, debug, info, warn, error]

/-- The weight of a level. -/
def weight : LogLevel → Nat
  | trace => 0
  | debug => 1
  | info => 2
  | warn => 3
  | error => 4

/-- The name of a level as settings spell it. -/
def setting : LogLevel → String
  | trace => "trace"
  | debug => "debug"
  | info => "info"
  | warn => "warn"
  | error => "error"

/-- The name of a level in the log. -/
def name : LogLevel → String
  | trace => "TRACE"
  | debug => "DEBUG"
  | info => "INFO"
  | warn => "WARN"
  | error => "ERROR"

/-- The level that a text names, in any letter case. -/
def parse? (text : String) : Option LogLevel :=
  all.find? fun level => level.setting == String.ofList (text.toList.map Char.toLower)

end LogLevel

/-- An event. -/
structure LogEvent where
  level : LogLevel
  message : String
  fields : List (String × Json) := []
deriving DecidableEq

/-- The events that a log set to `level` keeps. -/
def LogEvent.kept (level : LogLevel) (events : List LogEvent) : List LogEvent :=
  events.filter fun e => decide (level.weight ≤ e.level.weight)

end EntityCache
