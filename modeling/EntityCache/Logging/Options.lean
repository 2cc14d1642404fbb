import EntityCache.Config.Basic

/-!
# Options of the log

`LogOptions` says what is logged and where to: to the standard output, in one of two formats, and
to a file that is renewed at a fixed rhythm.  `LogOptions.ofSettings` takes them from the settings.
-/

namespace EntityCache

/-- The form of an event on the standard output. -/
inductive LogFormat where
  | json
  | pretty
deriving DecidableEq, Repr

namespace LogFormat

/-- All formats. -/
def all : List LogFormat := [json, pretty]

/-- The name of a format as options spell it. -/
def name : LogFormat → String
  | json => "json"
  | pretty => "pretty"

/-- The name of a format in the log. -/
def title : LogFormat → String
  | json => "Json"
  | pretty => "Pretty"

end LogFormat

/-- How often a new log file is begun. -/
inductive LogRotation where
  | daily
  | hourly
  | never
deriving DecidableEq, Repr

namespace LogRotation

/-- All rotations. -/
def all : List LogRotation := [daily, hourly, never]

/-- The name of a rotation. -/
def name : LogRotation → String
  | daily => "daily"
  | hourly => "hourly"
  | never => "never"

end LogRotation

/-- What is logged, and where to. -/
structure LogOptions where
  level : String := "info"
  format : LogFormat := .json
  /-- The directory of the log files; without one nothing is written to files. -/
  directory : Option String := none
  toStdout : Bool := true
  rotation : LogRotation := .daily
  retentionDays : Nat := 30
deriving DecidableEq, Repr

/-- The options that the settings stand for; any format but `pretty` is JSON. -/
def LogOptions.ofSettings (s : LoggingSettings) : LogOptions where
  level := s.level
  format := if s.format = "pretty" then .pretty else .json
  directory := s.directory
  retentionDays := s.retentionDays

end EntityCache
