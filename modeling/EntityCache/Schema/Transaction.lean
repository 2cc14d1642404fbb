import EntityCache.Schema.Migration

/-!
# Transactions

A migration is applied in one transaction.  The statements of a transaction change a working copy of
the database; a commit puts the copy in the place of the database, and a transaction that ends
without one is rolled back, so that the copy is gone.  A statement that fails leaves what was
executed before it in the working copy.

A database may also turn a request down for reasons of its own: a disk is full, another connection
holds the file, a constraint is found broken at the commit.  `Migration.runOn` is a run of
migrations on a database that does so.  It sees to the table of the records and reads the highest
version before its first transaction, and either can fail.
-/

namespace EntityCache

namespace Schema

/-- A connection to a database, with a transaction open on it. -/
structure Session where
  /-- The database, as it is without the transaction. -/
  stored : Catalog
  /-- The working copy of the transaction; without a transaction it is the database itself. -/
  working : Catalog
deriving DecidableEq, Repr

namespace Session

/-- What a connection is asked for in a transaction. -/
inductive Request where
  | begin
  | execute (statement : Statement)
  | record (applied : Applied)
  | commit

/-- What a connection is asked for before the first transaction. -/
inductive Preparation where
  | ensureHistory
  | highest
deriving DecidableEq, Repr

/-- The errors with which a database turns requests down for reasons of its own, where it does. -/
structure Refusal where
  preparing : Preparation → Catalog → Option SqlError
  serving : Request → Session → Option SqlError

/-- A database that turns nothing down. -/
def undisturbed : Refusal := ⟨fun _ _ => none, fun _ _ => none⟩

/-- Sees to the table of the records, unless that is turned down. -/
def ensureHistory (refusal : Refusal) (c : Catalog) : Except SqlError Catalog :=
  (refusal.preparing .ensureHistory c).elim c.ensureHistory .error

/-- Reads the highest version recorded, unless that is turned down. -/
def highest (refusal : Refusal) (c : Catalog) : Except SqlError Int :=
  (refusal.preparing .highest c).elim c.highest .error

/-- Changes the working copy, unless that fails. -/
def change (s : Session) : Except SqlError Catalog → Except SqlError Unit × Session
  | .ok c => (.ok (), { s with working := c })
  | .error e => (.error e, s)

/-- Answers a request. -/
def serve (refusal : Refusal) (r : Request) (s : Session) : Except SqlError Unit × Session :=
  match refusal.serving r s with
  | some e => (.error e, s)
  | none =>
    match r with
    | .begin => (.ok (), { s with working := s.stored })
    | .execute statement => s.change (s.working.execute statement)
    | .record applied => s.change (s.working.record applied)
    | .commit => (.ok (), { s with stored := s.working })

/-- Answers requests up to the first that fails. -/
def serveAll (refusal : Refusal) : List Request → Session → Except SqlError Unit × Session
  | [], s => (.ok (), s)
  | r :: rest, s =>
    match s.serve refusal r with
    | (.ok (), s) => serveAll refusal rest s
    | (.error e, s) => (.error e, s)

end Session

namespace Migration

/-- The requests that execute the statements of a migration in a new transaction. -/
def changes (m : Migration) : List Session.Request := .begin :: m.statements.map .execute

/-- The requests of a migration. -/
def requests (m : Migration) : List Session.Request := m.changes ++ [.record m.entry, .commit]

/-- Applies a migration in a transaction, which is rolled back unless it has been committed. -/
def transact (refusal : Session.Refusal) (m : Migration) (c : Catalog) :
    Except SqlError Unit × Catalog :=
  let (reply, session) := Session.serveAll refusal m.requests ⟨c, c⟩
  (reply, session.stored)

/-- Applies migrations one after another, each in a transaction, up to the first that fails. -/
def transactAll (refusal : Session.Refusal) :
    List Migration → Catalog → Except MigrationError Unit × Catalog
  | [], c => (.ok (), c)
  | m :: rest, c =>
    match m.transact refusal c with
    | (.ok (), c) => transactAll refusal rest c
    | (.error e, c) => (.error (.execution m.version e), c)

/-- Applies the pending migrations; answers their number. -/
def runOn (refusal : Session.Refusal) (migrations : List Migration) (c : Catalog) :
    Except MigrationError Nat × Catalog :=
  match Session.ensureHistory refusal c with
  | .error e => (.error (.execution 0 e), c)
  | .ok c =>
    match Session.highest refusal c with
    | .error e => (.error (.versionCheck e), c)
    | .ok highest =>
      let due := pending highest migrations
      let (result, c) := transactAll refusal due c
      (result.map fun _ => due.length, c)

end Migration

end Schema

end EntityCache
