import EntityCache.Identity.Address
import EntityCache.Program

/-!
# The identity of a node

An `Identity` is the owner token of a node, `host:process`, where the host names an address that
can reach the outside world.  Where no such address is found the host is `UnknownHost` and the
identity is not valid.

A `Resolver` computes identities by a probe and caches the last one.  `resolve` is the program of
one caller: it looks at the cache, and if there is nothing fresh it takes the resolver's lock, looks
again, probes, writes the cache and unlocks.  Only a valid identity that is younger than the refresh
interval is fresh.  Callers may be interleaved at their requests; a request waits while another
caller holds the lock, or while the probe has not come back.
-/

namespace EntityCache

/-- An owner token. -/
structure Identity where
  value : String
  valid : Bool
deriving DecidableEq, Repr

namespace Identity

/-- The host of an identity that could not be resolved. -/
def unknownHost : String := "UnknownHost"

/-- The identity for the host that a probe found, if it found one. -/
def ofHost (process : String) : Option String → Identity
  | some host => ⟨host ++ ":" ++ process, true⟩
  | none => ⟨unknownHost ++ ":" ++ process, false⟩

/-- What a caller asks of the resolver. -/
inductive Request where
  /-- The cached identity, if it is fresh. -/
  | readCache
  /-- Waits for the lock and takes it. -/
  | takeLock
  /-- Sends a probe out. -/
  | startProbe
  /-- Waits for the probe; answers the host that it found. -/
  | endProbe
  /-- Puts an identity into the cache. -/
  | write (identity : Identity)
  /-- Gives the lock up. -/
  | unlock

/-- The type in which a request is answered. -/
abbrev Request.Reply : Request → Type
  | readCache => Option Identity
  | takeLock => Unit
  | startProbe => Unit
  | endProbe => Option String
  | write _ => Unit
  | unlock => Unit

/-- The program of one caller on a node whose process is called `process`. -/
def resolve (process : String) : Program Request Request.Reply Identity :=
  .ask .readCache fun
    | some identity => .done identity
    | none =>
      .ask .takeLock fun _ =>
        .ask .readCache fun
          | some identity => .ask .unlock fun _ => .done identity
          | none =>
            .ask .startProbe fun _ =>
              .ask .endProbe fun host =>
                .ask (.write (ofHost process host)) fun _ =>
                  .ask .unlock fun _ => .done (ofHost process host)

end Identity

/-- What one probe finds, and how long it takes. -/
structure ProbeResult where
  host : Option String
  delay : Nat := 0
deriving DecidableEq, Repr

/-- An identity with the moment at which it was computed. -/
structure CachedIdentity where
  identity : Identity
  computedAt : Nat
deriving DecidableEq, Repr

/-- The state of a resolver.  Callers are told apart by numbers. -/
structure Resolver where
  /-- The age at which an identity is no longer fresh. -/
  refresh : Nat
  /-- What the probes find, in order; the last one repeats. -/
  results : List ProbeResult
  /-- The number of probes sent out. -/
  probes : Nat := 0
  cached : Option CachedIdentity := none
  /-- The caller that holds the lock. -/
  holder : Option Nat := none
  /-- What the probe that is out will find, and when it comes back. -/
  pending : Option (Option String × Nat) := none
deriving DecidableEq, Repr

namespace Resolver

/-- The cached identity, if it is valid and younger than the refresh interval. -/
def fresh? (now : Nat) (r : Resolver) : Option Identity :=
  match r.cached with
  | some c => if c.identity.valid ∧ now - c.computedAt < r.refresh then some c.identity else none
  | none => none

/-- What the next probe finds. -/
def nextResult (r : Resolver) : ProbeResult :=
  (r.results[r.probes]? <|> r.results.getLast?).getD ⟨none, 0⟩

/-- Answers a caller's request at a clock reading; `none` if it has to wait. -/
def serve (now caller : Nat) : (q : Identity.Request) → Resolver → Option (q.Reply × Resolver)
  | .readCache, r => some (r.fresh? now, r)
  | .takeLock, r =>
    match r.holder with
    | none => some ((), { r with holder := some caller })
    | some _ => none
  | .startProbe, r =>
    let result := r.nextResult
    some ((), { r with probes := r.probes + 1, pending := some (result.host, now + result.delay) })
  | .endProbe, r =>
    match r.pending with
    | some (host, due) => if due ≤ now then some (host, { r with pending := none }) else none
    | none => some (none, r)
  | .write identity, r => some ((), { r with cached := some ⟨identity, now⟩ })
  | .unlock, r => some ((), { r with holder := none })

/-- The moment for which the holder of the lock waits. -/
def due? (r : Resolver) : Option Nat := r.pending.map (·.2)

/-- A caller gives up: the lock and the probe are dropped if they are its own. -/
def abandon (caller : Nat) (r : Resolver) : Resolver :=
  if r.holder = some caller then { r with holder := none, pending := none } else r

end Resolver

end EntityCache
