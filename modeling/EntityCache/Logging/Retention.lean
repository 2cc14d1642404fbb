import EntityCache.Calendar
import EntityCache.Logging.Event

/-!
# Retention of log files

`Retention.prune` deletes the files of a directory whose name contains `.log` and that were modified
before a cutoff, a number of days back.  Entries are visited in the order of the listing.  A
directory cannot be deleted, and the first attempt to do so ends the visit with an error.

A date cannot be earlier than `Retention.earliestDay`; a cutoff before that day does not exist, and
`Retention.run` breaks off over it.  A directory that is not there has nothing to delete, and no
cutoff is computed for it.
-/

namespace EntityCache

/-- An entry of a directory; moments are in milliseconds. -/
structure DirectoryEntry where
  /-- The name, if it is a text; file systems also allow names that are none. -/
  name : Option String
  modified : Int
  isDirectory : Bool := false
deriving DecidableEq, Repr

namespace Retention

/-- The earliest day of a date. -/
def earliestDay : Int := Date.dayNumber ⟨-262143, 1, 1⟩

/-- The moment `days` before `now`. -/
def cutoff? (now : Int) (days : Nat) : Option Int :=
  if dayOf now - days < earliestDay then none else some (now - days * dayLength)

/-- Whether a text contains `.log`. -/
def containsLog : List Char → Bool
  | [] => false
  | c :: rest => ['.', 'l', 'o', 'g'].isPrefixOf (c :: rest) || containsLog rest

/-- Whether an entry looks like a log file that was modified before the cutoff. -/
def isExpired (cutoff : Int) (e : DirectoryEntry) : Bool :=
  e.name.any (containsLog ·.toList) && e.modified < cutoff

/-- What came of a visit. -/
structure Pruned where
  deleted : Nat
  left : List DirectoryEntry
  /-- The directory that could not be deleted. -/
  obstacle : Option String := none
deriving DecidableEq, Repr

/-- Deletes the expired log files up to the first expired directory. -/
def prune (cutoff : Int) : List DirectoryEntry → Pruned
  | [] => ⟨0, [], none⟩
  | e :: rest =>
    if isExpired cutoff e then
      if e.isDirectory then ⟨0, e :: rest, e.name⟩
      else
        let p := prune cutoff rest
        { p with deleted := p.deleted + 1 }
    else
      let p := prune cutoff rest
      { p with left := e :: p.left }

/-- The text of the failure to delete an entry of a directory. -/
def obstacleMessage (directory name : String) : String :=
  "failed to delete " ++ directory ++ "/" ++ name

/-- The number of files deleted, or the text of the failure. -/
def Pruned.result (directory : String) (p : Pruned) : Except String Nat :=
  match p.obstacle with
  | some name => .error (obstacleMessage directory name)
  | none => .ok p.deleted

/-- The events of a visit, the failure included. -/
def Pruned.events (directory : String) (p : Pruned) : List LogEvent :=
  match p.result directory with
  | .error message =>
    [⟨.warn, "log retention cleanup failed", [("path", .string directory), ("error", .string message)]⟩]
  | .ok 0 => []
  | .ok n =>
    [⟨.info, "deleted expired log files",
      [("count", .number (.integer n)), ("path", .string directory)]⟩]

/-- What comes of a call. -/
inductive Outcome where
  /-- There is no such directory. -/
  | missing
  /-- There is no such date as the cutoff. -/
  | brokenOff
  | visited (p : Pruned)
deriving DecidableEq, Repr

/-- Applies the retention to a directory, given by its entries if it is there. -/
def run (now : Int) (days : Nat) : Option (List DirectoryEntry) → Outcome
  | none => .missing
  | some entries => (cutoff? now days).elim .brokenOff fun cutoff => .visited (prune cutoff entries)

namespace Outcome

/-- The number of files deleted or the text of the failure, unless the call breaks off. -/
def result? (directory : String) : Outcome → Option (Except String Nat)
  | missing => some (.ok 0)
  | brokenOff => none
  | visited p => some (p.result directory)

/-- The events of a call. -/
def events (directory : String) : Outcome → List LogEvent
  | missing => [⟨.warn, "log directory does not exist", [("path", .string directory)]⟩]
  | brokenOff => []
  | visited p => p.events directory

end Outcome

end Retention

end EntityCache
