import EntityCache.Entity.Basic

/-!
# The two tables of a database store

Strings are rows `(key, value)` with unique keys, set members are unique rows `(key, member)`.  A
`Statement` reads or changes the rows; its parameters are bound one by one, and a database takes at
most `bindingLimit` of them.  Several statements in a row are run as one transaction.
-/

namespace EntityCache

namespace Store

/-- The rows of the two tables. -/
structure Tables where
  strings : List (String × String) := []
  sets : List (String × String) := []
deriving DecidableEq, Repr

/-- One statement with its bound parameters. -/
inductive Statement where
  /-- The row of a key. -/
  | selectString (key : String)
  /-- The rows whose key is among these. -/
  | selectStrings (keys : List String)
  /-- Inserts rows one after another; a row of the same key is overwritten. -/
  | upsertStrings (entries : List (String × String))
  /-- Counts the distinct keys among these that either table has. -/
  | countKeys (keys : List String)
  /-- Deletes the string rows whose key is among these. -/
  | deleteStrings (keys : List String)
  /-- Deletes the set rows whose key is among these. -/
  | deleteSets (keys : List String)
  /-- Inserts rows of one set one after another; a row that is there is left alone. -/
  | insertMembers (key : String) (members : List String)
  /-- Deletes the rows of one set whose member is among these. -/
  | deleteMembers (key : String) (members : List String)
  /-- The rows of one set, ordered by member. -/
  | selectMembers (key : String)
deriving DecidableEq, Repr

/-- What a statement yields. -/
inductive Outcome where
  /-- The rows it selects. -/
  | rows (rows : List (String × String))
  /-- The number it counts. -/
  | count (n : Nat)
  /-- The number of rows it changes. -/
  | affected (n : Nat)
deriving DecidableEq, Repr

namespace Statement

/-- The largest number of parameters of one statement. -/
def bindingLimit : Nat := 999

/-- The number of parameters that a statement binds. -/
def bindings : Statement → Nat
  | selectString _ => 1
  | selectStrings keys => keys.length
  | upsertStrings entries => 2 * entries.length
  | countKeys keys => 2 * keys.length
  | deleteStrings keys => keys.length
  | deleteSets keys => keys.length
  | insertMembers _ members => 2 * members.length
  | deleteMembers _ members => members.length + 1
  | selectMembers _ => 1

end Statement

namespace Tables

/-- Inserts a string row, or overwrites the value of the row of its key. -/
def upsert (rows : List (String × String)) (entry : String × String) : List (String × String) :=
  if rows.any (·.1 == entry.1) then
    rows.map fun row => if row.1 == entry.1 then entry else row
  else rows ++ [entry]

/-- Inserts set rows that are not there yet, and counts them. -/
def insertRows : List (String × String) → List (String × String) → Nat × List (String × String)
  | [], rows => (0, rows)
  | row :: rest, rows =>
    if rows.contains row then insertRows rest rows
    else
      let (n, rows) := insertRows rest (rows ++ [row])
      (n + 1, rows)

/-- Deletes the rows that satisfy `p`, and counts them. -/
def deleteRows (p : String × String → Bool) (rows : List (String × String)) :
    Nat × List (String × String) :=
  ((rows.filter p).length, rows.filter (!p ·))

/-- The effect of one statement. -/
def execute (t : Tables) : Statement → Outcome × Tables
  | .selectString key => (.rows (t.strings.filter (·.1 == key)), t)
  | .selectStrings keys => (.rows (t.strings.filter (keys.contains ·.1)), t)
  | .upsertStrings entries =>
    (.affected entries.length, { t with strings := entries.foldl upsert t.strings })
  | .countKeys keys =>
    let found := (t.strings ++ t.sets).map (·.1) |>.filter keys.contains
    (.count (distinct found).length, t)
  | .deleteStrings keys =>
    let (n, rows) := deleteRows (keys.contains ·.1) t.strings
    (.affected n, { t with strings := rows })
  | .deleteSets keys =>
    let (n, rows) := deleteRows (keys.contains ·.1) t.sets
    (.affected n, { t with sets := rows })
  | .insertMembers key members =>
    let (n, rows) := insertRows (members.map (key, ·)) t.sets
    (.affected n, { t with sets := rows })
  | .deleteMembers key members =>
    let (n, rows) := deleteRows (fun row => row.1 == key && members.contains row.2) t.sets
    (.affected n, { t with sets := rows })
  | .selectMembers key =>
    (.rows ((t.sets.filter (·.1 == key)).mergeSort fun a b => (compare a.2 b.2).isLE), t)

/-- The effect of several statements, in order. -/
def executeAll (t : Tables) : List Statement → List Outcome × Tables
  | [] => ([], t)
  | s :: rest =>
    let (outcome, t) := t.execute s
    let (outcomes, t) := t.executeAll rest
    (outcome :: outcomes, t)

end Tables

end Store

end EntityCache
