import EntityCache.Lock.Service

/-!
# Locks in a database

`Lock.Rows` is the table of locks, one row for each name.  Acquiring inserts a row, or overwrites
the row of the lock where that row has expired or is the owner's own; extending and releasing touch
only the owner's row.  A request succeeds if it changes a row.  The moment of expiry is a signed
64-bit number of milliseconds and stops at the largest one.
-/

namespace EntityCache

namespace Lock

/-- A row of the table of locks. -/
structure Row where
  name : String
  owner : String
  expires : Nat
deriving DecidableEq, Repr

/-- The table of locks. -/
abbrev Rows := List Row

namespace Rows

/-- The largest moment of expiry. -/
def latest : Nat := 0x7fffffffffffffff

/-- The moment of expiry of a lock that is granted now. -/
def expiry (now lifetime : Nat) : Nat := min (now + lifetime) latest

/-- Inserts a row, or overwrites the row of its name where `p` allows it; answers the number of rows
that are changed. -/
def upsert (p : Row → Bool) (row : Row) (rows : Rows) : Nat × Rows :=
  if rows.any (·.name == row.name) then
    ((rows.filter fun r => r.name == row.name && p r).length,
      rows.map fun r => if r.name == row.name && p r then row else r)
  else (1, rows ++ [row])

/-- Changes the rows that satisfy `p`; answers their number. -/
def update (p : Row → Bool) (change : Row → Row) (rows : Rows) : Nat × Rows :=
  ((rows.filter p).length, rows.map fun r => if p r then change r else r)

/-- Answers a request at a clock reading. -/
def answer (now : Nat) : Request → Rows → Bool × Rows
  | .acquire key owner lifetime, rows =>
    let (n, rows) :=
      rows.upsert (fun r => r.expires ≤ now || r.owner == owner) ⟨key, owner, expiry now lifetime⟩
    (n == 1, rows)
  | .heartbeat key owner lifetime, rows =>
    let (n, rows) :=
      rows.update (fun r => r.name == key && r.owner == owner && now < r.expires)
        fun r => { r with expires := expiry now lifetime }
    (n == 1, rows)
  | .release key owner, rows => (true, rows.filter fun r => !(r.name == key && r.owner == owner))

/-- The service on an open database, which never fails. -/
def service : Service Rows where
  serve now r rows :=
    let (granted, rows) := rows.answer now r
    (.ok granted, rows)

end Rows

/-- The table of locks of a database, open or closed. -/
structure Database where
  rows : Rows := []
  isOpen : Bool := true
deriving DecidableEq, Repr

namespace Database

/-- The service on a database; every request to a closed one fails. -/
def service : Service Database where
  serve now r d :=
    if d.isOpen then
      let (granted, rows) := d.rows.answer now r
      (.ok granted, { d with rows })
    else (.error (.query StoreError.poolClosed), d)

end Database

end Lock

end EntityCache
