import EntityCache.Instant
import EntityCache.Lock.Leases
import EntityCache.Lock.Rows

/-!
# Locks and the clocks of a machine

`Lock.Leases` and `Lock.Rows` reckon with milliseconds from some beginning, which have no end.  The
clocks of a machine have one.  `TimedLeases` are the locks of a service in memory whose clock gives
instants; a lock that would expire after the last of them cannot be granted, and the request breaks
off.  `Rows.expiryAt` is the moment of expiry that a database records, reckoned in signed 64-bit
numbers: milliseconds since 1 January 1970, before which a clock may be set, too.
-/

namespace EntityCache

namespace Lock

/-- A granted lock, and the instant at which it expires. -/
structure TimedLease where
  owner : String
  expires : Instant
deriving DecidableEq, Repr

/-- Granted locks by name; some may have expired. -/
abbrev TimedLeases := Std.ExtTreeMap String TimedLease

namespace TimedLeases

/-- Writes a lock that lives from now on; `none` if there is no instant at which it could expire. -/
def grant? (now : Instant) (key owner : String) (lifetime : Nat) (leases : TimedLeases) :
    Option (Bool × TimedLeases) :=
  (now.add? (.ofMilliseconds lifetime)).map fun expires =>
    (true, leases.insert key ⟨owner, expires⟩)

/-- Answers a request at an instant; `none` if it breaks off. -/
def answer? (now : Instant) : Request → TimedLeases → Option (Bool × TimedLeases)
  | .acquire key owner lifetime, leases =>
    match leases[key]? with
    | some lease =>
      if now < lease.expires ∧ lease.owner ≠ owner then some (false, leases)
      else leases.grant? now key owner lifetime
    | none => leases.grant? now key owner lifetime
  | .heartbeat key owner lifetime, leases =>
    match leases[key]? with
    | some lease =>
      if lease.owner = owner ∧ now < lease.expires then
        leases.grant? now key lease.owner lifetime
      else some (false, leases)
    | none => some (false, leases)
  | .release key owner, leases =>
    match leases[key]? with
    | some lease => some (true, if lease.owner = owner then leases.erase key else leases)
    | none => some (true, leases)

end TimedLeases

/-- The moment of expiry of a lock that is granted at a moment of the calendar.  A lifetime that is
no 64-bit number of milliseconds counts as the largest one, and a sum stops at the largest one. -/
def Rows.expiryAt (now : Int64) (lifetime : Duration) : Int64 :=
  .ofIntClamp (now.toInt + (Int64.ofIntClamp lifetime.toMilliseconds).toInt)

end Lock

end EntityCache
