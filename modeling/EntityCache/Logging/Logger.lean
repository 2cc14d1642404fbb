import EntityCache.Logging.Options
import EntityCache.Logging.Retention

/-!
# The log of a process

A `LogProcess` has at most one log, installed once and for all.  `LogProcess.init` opens the log
file, installs the log and writes its first event; `LogProcess.start` also applies the retention to
the directory of the log file, which may delete the file that has just been opened.  What is written
to a deleted file is lost.

Both can break off: when the log file cannot be opened because a directory has its name, and when
the cutoff of the retention does not exist.  Then the caller is given no log to hold, so that the
log file is closed; all that has been done up to then stays done.
-/

namespace EntityCache

/-- A text of digits that is at least `width` long. -/
def paddedDecimal (width n : Nat) : String :=
  let digits := Nat.repr n
  String.ofList (List.replicate (width - digits.length) '0') ++ digits

namespace LogRotation

/-- What the name of a log file begins with. -/
def baseName : String := "fleetcache.log"

/-- The date of a moment as it stands in file names. -/
def stamp (now : Int) : String :=
  let d := Date.ofDayNumber (dayOf now)
  paddedDecimal 4 d.year.toNat ++ "-" ++ paddedDecimal 2 d.month ++ "-" ++ paddedDecimal 2 d.day

/-- The name of the log file of a moment. -/
def fileName (now : Int) : LogRotation → String
  | never => baseName
  | daily => baseName ++ "." ++ stamp now
  | hourly => baseName ++ "." ++ stamp now ++ "-" ++ paddedDecimal 2 (hourOf now)

end LogRotation

/-- Why a log was not installed. -/
inductive LogFailure where
  | invalidLevel (level : String)
  | alreadyInstalled
deriving DecidableEq, Repr

/-- The text of a failure. -/
def LogFailure.message : LogFailure → String
  | invalidLevel level => "Invalid log level: " ++ level
  | alreadyInstalled => "Failed to install global tracing subscriber"

/-- How the installation of a log ends. -/
inductive LogOutcome where
  | installed
  | refused (failure : LogFailure)
  | brokenOff
deriving DecidableEq, Repr

/-- An installed log. -/
structure Logger where
  level : LogLevel
  toStdout : Bool
  /-- The name of the log file, as long as it is there. -/
  file : Option String
  /-- Whether the log file is still written to. -/
  isOpen : Bool := true
deriving DecidableEq, Repr

/-- A process, with the directory of its log files. -/
structure LogProcess where
  logger : Option Logger := none
  entries : List DirectoryEntry := []
  /-- The events on the standard output. -/
  stdout : List LogEvent := []
  /-- The events in the log file. -/
  filed : List LogEvent := []

namespace LogProcess

/-- Puts an empty file into the directory unless it has an entry of that name. -/
def openFile (now : Int) (name : String) (p : LogProcess) : LogProcess :=
  if p.entries.any (·.name == some name) then p
  else { p with entries := p.entries ++ [⟨name, now, false⟩] }

/-- Logs events. -/
def emit (now : Int) (events : List LogEvent) (p : LogProcess) : LogProcess :=
  match p.logger with
  | none => p
  | some logger =>
    let kept := LogEvent.kept logger.level events
    let p := if logger.toStdout then { p with stdout := p.stdout ++ kept } else p
    match logger.file, logger.isOpen with
    | some name, true =>
      { p with
        filed := p.filed ++ kept
        entries := p.entries.map fun e =>
          if e.name == some name && !kept.isEmpty then { e with modified := now } else e }
    | _, _ => p

/-- Closes the log file. -/
def closeFile (p : LogProcess) : LogProcess :=
  { p with logger := p.logger.map fun l => { l with isOpen := false } }

/-- The first event of a log. -/
def greeting (options : LogOptions) : LogEvent :=
  ⟨.info, "logger initialized",
    [("level", .string options.level), ("format", .string options.format.title),
      ("file_output", .bool options.directory.isSome)]⟩

/-- Opens the log file, installs the log and writes its first event. -/
def init (now : Int) (options : LogOptions) (p : LogProcess) : LogOutcome × LogProcess :=
  match LogLevel.parse? options.level with
  | none => (.refused (.invalidLevel options.level), p)
  | some level =>
    let file := options.directory.map fun _ => options.rotation.fileName now
    if file.any (fun name => p.entries.any fun e => e.isDirectory && e.name == some name) then
      (.brokenOff, p)
    else
      let p := file.elim p fun name => p.openFile now name
      if p.logger.isSome then (.refused .alreadyInstalled, p)
      else
        let p := { p with logger := some ⟨level, options.toStdout, file, true⟩ }
        (.installed, p.emit now [greeting options])

/-- Applies the retention to the directory and logs what came of it, unless it breaks off. -/
def enforceRetention (now : Int) (directory : String) (days : Nat) (p : LogProcess) :
    Option LogProcess :=
  match Retention.run now days (some p.entries) with
  | .brokenOff => none
  | .missing => some (p.emit now (Retention.Outcome.missing.events directory))
  | .visited pruned =>
    let remains (name : String) : Bool := pruned.left.any (·.name == some name)
    let p : LogProcess :=
      { p with
        entries := pruned.left
        logger := p.logger.map fun l => ({ l with file := l.file.filter remains } : Logger) }
    some (p.emit now (pruned.events directory))

/-- Installs the log and, a moment `later`, applies the retention. -/
def start (now later : Int) (options : LogOptions) (p : LogProcess) : LogOutcome × LogProcess :=
  match p.init now options with
  | (.installed, p) =>
    match options.directory with
    | none => (.installed, p)
    | some directory =>
      match p.enforceRetention later directory options.retentionDays with
      | some p => (.installed, p)
      | none => (.brokenOff, p.closeFile)
  | other => other

end LogProcess

end EntityCache
