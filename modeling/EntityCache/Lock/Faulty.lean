import EntityCache.Lock.Leases
import EntityCache.Lock.Rows

/-!
# Lock services that misbehave

`Lock.Backing` is a lock service of either kind.  `Lock.Faulty` stands in front of one with a script
of faults for each kind of request: the first fault of the script decides about the next request of
that kind, and past its end every request is carried out.
-/

namespace EntityCache

namespace Lock

/-- A lock service of either kind. -/
inductive Backing where
  | memory (leases : Leases)
  | database (table : Database)

namespace Backing

/-- Answers a request. -/
def serve (now : Nat) (r : Request) : Backing → Except StoreError Bool × Backing
  | memory leases =>
    let (reply, leases) := Leases.service.serve now r leases
    (reply, memory leases)
  | database table =>
    let (reply, table) := Database.service.serve now r table
    (reply, database table)

/-- The owner of a lock that has not expired, as a service in memory knows it. -/
def ownerOf (now : Nat) (key : String) : Backing → Option String
  | memory leases => leases.ownerOf now key
  | database _ => none

/-- Closes a database; a service in memory stays as it is. -/
def close : Backing → Backing
  | memory leases => memory leases
  | database table => database { table with isOpen := false }

/-- The service. -/
def service : Service Backing := ⟨Backing.serve⟩

end Backing

/-- What happens to a request. -/
inductive Fault where
  /-- It is carried out. -/
  | pass
  /-- It is answered with `false` and not carried out. -/
  | refuse
  /-- It fails and is not carried out. -/
  | fail (error : StoreError)
deriving DecidableEq, Repr

/-- A lock service behind faults. -/
structure Faulty where
  backing : Backing
  onAcquire : List Fault := []
  onHeartbeat : List Fault := []
  onRelease : List Fault := []

namespace Faulty

/-- The fault of the next request of a kind, and the service without it. -/
def nextFault (f : Faulty) : Operation → Fault × Faulty
  | .acquire => (f.onAcquire.headD .pass, { f with onAcquire := f.onAcquire.tail })
  | .heartbeat => (f.onHeartbeat.headD .pass, { f with onHeartbeat := f.onHeartbeat.tail })
  | .release => (f.onRelease.headD .pass, { f with onRelease := f.onRelease.tail })

/-- Answers a request, unless a fault is in the way. -/
def serve (now : Nat) (r : Request) (f : Faulty) : Except StoreError Bool × Faulty :=
  let (fault, f) := f.nextFault r.operation
  match fault with
  | .pass =>
    let (reply, backing) := f.backing.serve now r
    (reply, { f with backing })
  | .refuse => (.ok false, f)
  | .fail e => (.error e, f)

end Faulty

end Lock

end EntityCache
