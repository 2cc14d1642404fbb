import EntityCache.Schema.Statement

/-!
# Migrations of a database

A `Migration` is a version, a description and the statements that bring a database to that version.
It is applied as a whole or not at all: its statements run, and its version is recorded.
`Migration.runAll` applies the migrations whose version is above the highest one recorded, in the
order of the list, up to the first that fails; those before it stay applied.
-/

namespace EntityCache

namespace Schema

/-- A step in the history of a database. -/
structure Migration where
  version : Int
  description : String
  statements : List Statement

/-- The record of a migration. -/
def Migration.entry (m : Migration) : Applied := ⟨m.version, m.description⟩

/-- Applies a migration as a whole. -/
def Catalog.apply (m : Migration) (c : Catalog) : Except SqlError Catalog :=
  (c.executeAll m.statements).bind (record m.entry)

/-- Why migrations fail. -/
inductive MigrationError where
  /-- A migration cannot be applied; version 0 stands for the table of the records. -/
  | execution (version : Int) (cause : SqlError)
  /-- The highest version recorded cannot be read. -/
  | versionCheck (cause : SqlError)
deriving DecidableEq, Repr

/-- The text of a failure. -/
def MigrationError.message : MigrationError → String
  | execution version cause =>
    "Failed to execute migration " ++ Int.repr version ++ ": " ++ cause.message
  | versionCheck cause => "Failed to get schema version: " ++ cause.message

namespace Migration

/-- Applies migrations one after another up to the first that fails. -/
def applyAll : List Migration → Catalog → Except MigrationError Unit × Catalog
  | [], c => (.ok (), c)
  | m :: rest, c =>
    match c.apply m with
    | .ok c => applyAll rest c
    | .error e => (.error (.execution m.version e), c)

/-- The migrations above a version. -/
def pending (highest : Int) (migrations : List Migration) : List Migration :=
  migrations.filter fun m => highest < m.version

/-- Applies the pending migrations; answers their number. -/
def runAll (migrations : List Migration) (c : Catalog) : Except MigrationError Nat × Catalog :=
  match c.ensureHistory with
  | .error e => (.error (.execution 0 e), c)
  | .ok c =>
    match c.highest with
    | .error e => (.error (.versionCheck e), c)
    | .ok highest =>
      let due := pending highest migrations
      let (result, c) := applyAll due c
      (result.map fun _ => due.length, c)

/-- The text of the first migration. -/
def initialText : String :=
"-- Key-value store: string values
CREATE TABLE IF NOT EXISTS kv_strings (
    key TEXT PRIMARY KEY NOT NULL,
    value TEXT NOT NULL
);

-- Key-value store: set members
CREATE TABLE IF NOT EXISTS kv_sets (
    key TEXT NOT NULL,
    member TEXT NOT NULL,
    PRIMARY KEY (key, member)
);

-- Distributed agent locks with absolute expiry (unix epoch milliseconds)
CREATE TABLE IF NOT EXISTS agent_locks (
    name TEXT PRIMARY KEY NOT NULL,
    owner TEXT NOT NULL,
    expires_at_ms INTEGER NOT NULL
);

CREATE INDEX IF NOT EXISTS idx_agent_locks_expires_at ON agent_locks(expires_at_ms);
"

/-- The tables of a store and of its locks. -/
def initial : Migration where
  version := 1
  description := "Key-value store and agent lock tables"
  statements := Statement.readAll initialText

/-- All migrations that a database needs. -/
def embedded : List Migration := [initial]

end Migration

end Schema

end EntityCache
