import EntityCache.Config.Basic
import EntityCache.Lock.Leases
import EntityCache.Lock.Rows
import EntityCache.Schema.Migration
import EntityCache.Storage.Files
import EntityCache.Store.Database
import EntityCache.Store.Memory

/-!
# Opening the configured backend

A backend is a store together with a lock service.  One in memory belongs to whoever opened it; a
database file is opened with its migrations applied, and all who open one file share its content.
The directories on the way to a database file are made when they are missing.
-/

namespace EntityCache

namespace Storage

/-- The content of a database. -/
structure Content where
  store : Store.Database := {}
  locks : Lock.Database := {}
  catalog : Schema.Catalog := {}

/-- Why a backend was not opened. -/
inductive OpenError where
  | emptyPath
  | createDirectory
  | openDatabase
  | migration (cause : Schema.MigrationError)
deriving DecidableEq, Repr

/-- The text of a failure where it is this program's own. -/
def OpenError.message? : OpenError → Option String
  | emptyPath => some "Connection error: Database path is empty"
  | migration cause => some ("Migration error: " ++ cause.message)
  | createDirectory | openDatabase => none

/-- An opened backend. -/
inductive Backend where
  | memory (store : Store.Memory) (locks : Lock.Leases)
  /-- A database of its own, in no file. -/
  | transient (content : Content)
  /-- The database file at a path. -/
  | file (path : List String)

/-- A working directory and the backends opened in it, in order. -/
structure Workplace where
  files : Files Content := {}
  backends : List Backend := []

namespace Workplace

/-- The path that stands for a database in no file. -/
def transientPath : String := ":memory:"

/-- A database with its migrations applied. -/
def migrated (c : Content) : Except OpenError Content :=
  match Schema.Migration.runAll Schema.Migration.embedded c.catalog with
  | (.ok _, catalog) => .ok { c with catalog }
  | (.error e, _) => .error (.migration e)

/-- Opens the database at a path and makes it if there is no entry. -/
def openDatabase (path : String) (w : Workplace) : Except OpenError Backend × Workplace :=
  if path.isEmpty then (.error .emptyPath, w)
  else if path = transientPath then ((migrated {}).map .transient, w)
  else
    let names := Files.steps path
    match w.files.createDirectories [] names.dropLast with
    | none => (.error .createDirectory, w)
    | some files =>
      let w := { w with files }
      let place := Files.resolve names
      let content : Except OpenError Content :=
        match files.at? place with
        | none => .ok {}
        | some (.database content) => .ok content
        | some _ => .error .openDatabase
      match content.bind migrated with
      | .ok content => (.ok (.file place), { w with files := files.put place (.database content) })
      | .error e => (.error e, w)

/-- Opens the backend that the settings name; answers its number. -/
def connect (s : StoreSettings) (w : Workplace) : Except OpenError Nat × Workplace :=
  let opened : Except OpenError Backend × Workplace :=
    match s.kind with
    | .memory => (.ok (.memory {} ∅), w)
    | .database => w.openDatabase s.databasePath
  let w := opened.2
  match opened.1 with
  | .ok backend => (.ok w.backends.length, { w with backends := w.backends ++ [backend] })
  | .error e => (.error e, w)

/-- Does something to the content of a database file. -/
def modifyFile {β : Type} (path : List String) (act : Content → β × Content) (w : Workplace) :
    Option β × Workplace :=
  match w.files.at? path with
  | some (.database content) =>
    let (b, content) := act content
    (some b, { w with files := w.files.put path (.database content) })
  | _ => (none, w)

/-- Replaces a backend. -/
def setBackend (n : Nat) (backend : Backend) (w : Workplace) : Workplace :=
  { w with backends := w.backends.set n backend }

/-- Answers a request to the store of a database. -/
def Content.ask (r : Store.Request) (c : Content) : r.Reply × Content :=
  let (reply, store) := c.store.serve r
  (reply, { c with store })

/-- Answers a request to the locks of a database. -/
def Content.lock (now : Nat) (r : Lock.Request) (c : Content) : Except StoreError Bool × Content :=
  let (reply, locks) := Lock.Database.service.serve now r c.locks
  (reply, { c with locks })

/-- Answers a request to the store of a backend. -/
def ask (n : Nat) (r : Store.Request) (w : Workplace) : Option r.Reply × Workplace :=
  match w.backends[n]? with
  | none => (none, w)
  | some (.memory store locks) =>
    let (reply, store) := store.serve r
    (some reply, w.setBackend n (.memory store locks))
  | some (.transient content) =>
    let (reply, content) := Content.ask r content
    (some reply, w.setBackend n (.transient content))
  | some (.file path) => w.modifyFile path (Content.ask r)

/-- Answers a request to the locks of a backend. -/
def lock (now n : Nat) (r : Lock.Request) (w : Workplace) :
    Option (Except StoreError Bool) × Workplace :=
  match w.backends[n]? with
  | none => (none, w)
  | some (.memory store locks) =>
    let (reply, locks) := Lock.Leases.service.serve now r locks
    (some reply, w.setBackend n (.memory store locks))
  | some (.transient content) =>
    let (reply, content) := Content.lock now r content
    (some reply, w.setBackend n (.transient content))
  | some (.file path) => w.modifyFile path (Content.lock now r)

end Workplace

end Storage

end EntityCache
