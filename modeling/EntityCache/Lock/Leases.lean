import EntityCache.Lock.Service
import Std.Data.ExtTreeMap

/-!
# Locks in memory

`Lock.Leases` keeps for every lock its owner and the moment at which it expires.
-/

namespace EntityCache

namespace Lock

/-- A granted lock. -/
structure Lease where
  owner : String
  expires : Nat
deriving DecidableEq, Repr

/-- Granted locks by name; some may have expired. -/
abbrev Leases := Std.ExtTreeMap String Lease

namespace Leases

/-- The owner of a lock that has not expired. -/
def ownerOf (now : Nat) (key : String) (leases : Leases) : Option String :=
  match leases[key]? with
  | some lease => if now < lease.expires then some lease.owner else none
  | none => none

/-- Answers a request at a clock reading. -/
def answer (now : Nat) : Request → Leases → Bool × Leases
  | .acquire key owner lifetime, leases =>
    match leases[key]? with
    | some lease =>
      if now < lease.expires ∧ lease.owner ≠ owner then (false, leases)
      else (true, leases.insert key ⟨owner, now + lifetime⟩)
    | none => (true, leases.insert key ⟨owner, now + lifetime⟩)
  | .heartbeat key owner lifetime, leases =>
    match leases[key]? with
    | some lease =>
      if lease.owner = owner ∧ now < lease.expires then
        (true, leases.insert key { lease with expires := now + lifetime })
      else (false, leases)
    | none => (false, leases)
  | .release key owner, leases =>
    match leases[key]? with
    | some lease => (true, if lease.owner = owner then leases.erase key else leases)
    | none => (true, leases)

/-- The service, which never fails. -/
def service : Service Leases where
  serve now r leases :=
    let (granted, leases) := answer now r leases
    (.ok granted, leases)

end Leases

end Lock

end EntityCache
