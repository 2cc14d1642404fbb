/-!
# What a database holds

A `Catalog` is a database: its tables and indexes, and the records of the migrations applied to it,
which stand in a table of their own.  Names are compared without regard to letter case, and tables
and indexes may not share one.

The table of the records is told apart from the other tables, because migrations read and write it.
Another table may have its name without having its columns, and then it is in the way: a record can
neither be read nor written.
-/

namespace EntityCache

namespace Schema

/-- Why a database refuses what it is asked for. -/
inductive SqlError where
  /-- The text goes wrong at a token. -/
  | near (token : String)
  /-- The text ends too early. -/
  | incomplete
  | tableExists (name : String)
  | indexExists (name : String)
  /-- The name of a new table is the name of an index. -/
  | indexNamed (name : String)
  /-- The name of a new index is the name of a table. -/
  | tableNamed (name : String)
  | noSuchTable (name : String)
  | noSuchColumn (column : String)
  /-- A value is given for a column that a table does not have. -/
  | unknownColumn (table column : String)
  | notUnique (column : String)
  /-- Anything else, such as a full disk. -/
  | other (code : Nat) (detail : String)
deriving DecidableEq, Repr

namespace SqlError

/-- The number of an error. -/
def code : SqlError → Nat
  | notUnique _ => 1555
  | other code _ => code
  | _ => 1

/-- What an error says. -/
def detail : SqlError → String
  | near token => "near \"" ++ token ++ "\": syntax error"
  | incomplete => "incomplete input"
  | tableExists name => "table " ++ name ++ " already exists"
  | indexExists name => "index " ++ name ++ " already exists"
  | indexNamed name => "there is already an index named " ++ name
  | tableNamed name => "there is already a table named " ++ name
  | noSuchTable name => "no such table: " ++ name
  | noSuchColumn column => "no such column: " ++ column
  | unknownColumn table column => "table " ++ table ++ " has no column named " ++ column
  | notUnique column => "UNIQUE constraint failed: " ++ column
  | other _ detail => detail

/-- The text of an error. -/
def message (e : SqlError) : String :=
  "error returned from database: (code: " ++ Nat.repr e.code ++ ") " ++ e.detail

end SqlError

/-- A table with its rows, each as one text. -/
structure Table where
  name : String
  rows : List String := []
deriving DecidableEq, Repr

/-- An index of a table. -/
structure Index where
  name : String
  table : String
deriving DecidableEq, Repr

/-- The record of an applied migration. -/
structure Applied where
  version : Int
  description : String
deriving DecidableEq, Repr

/-- What a database holds. -/
structure Catalog where
  /-- The tables, in the order of their making, without the one of the records. -/
  tables : List Table := []
  indexes : List Index := []
  /-- The migrations applied, if there is the table of their records. -/
  history : Option (List Applied) := none
deriving DecidableEq, Repr

/-- Whether two names are the same to a database. -/
def sameName (a b : String) : Bool := a.toLower == b.toLower

namespace Catalog

/-- The name of the table of the migrations applied. -/
def historyTable : String := "schema_migrations"

/-- Whether there is a table of this name. -/
def has (name : String) (c : Catalog) : Bool :=
  c.history.isSome && sameName name historyTable || c.tables.any (sameName name ·.name)

/-- Whether there is an index of this name. -/
def hasIndex (name : String) (c : Catalog) : Bool := c.indexes.any (sameName name ·.name)

/-- The names of all tables. -/
def tableNames (c : Catalog) : List String :=
  (if c.history.isSome then [historyTable] else []) ++ c.tables.map (·.name)

/-- Makes a table. -/
def create (name : String) (c : Catalog) : Catalog := { c with tables := c.tables ++ [⟨name, []⟩] }

/-- Takes a table away, with its indexes. -/
def drop (name : String) (c : Catalog) : Catalog where
  tables := c.tables.filter (!sameName name ·.name)
  indexes := c.indexes.filter (!sameName name ·.table)
  history := if sameName name historyTable then none else c.history

/-- Takes the rows of a table away. -/
def clear (name : String) (c : Catalog) : Catalog :=
  { c with
    tables := c.tables.map fun t => if sameName name t.name then { t with rows := [] } else t
    history := if sameName name historyTable then c.history.map fun _ => [] else c.history }

/-! ## The migrations applied -/

/-- The records of the migrations applied. -/
def recorded (c : Catalog) : List Applied := c.history.getD []

/-- The highest version recorded, 0 if none is recorded. -/
def newest (c : Catalog) : Int := (c.recorded.map (·.version)).max?.getD 0

/-- Makes the table of the migrations applied, unless there is a table of its name. -/
def ensureHistory (c : Catalog) : Except SqlError Catalog :=
  if c.has historyTable then .ok c
  else if c.hasIndex historyTable then .error (.indexNamed historyTable)
  else .ok { c with history := some [] }

/-- Reads the highest version recorded. -/
def highest (c : Catalog) : Except SqlError Int :=
  match c.history with
  | some _ => .ok c.newest
  | none =>
    .error (if c.has historyTable then .noSuchColumn "version" else .noSuchTable historyTable)

/-- Writes a record; a version is recorded once. -/
def record (a : Applied) (c : Catalog) : Except SqlError Catalog :=
  match c.history with
  | some records =>
    if records.any (·.version == a.version) then .error (.notUnique (historyTable ++ ".version"))
    else .ok { c with history := some (records ++ [a]) }
  | none =>
    .error
      (if c.has historyTable then .unknownColumn historyTable "version"
        else .noSuchTable historyTable)

end Catalog

end Schema

end EntityCache
