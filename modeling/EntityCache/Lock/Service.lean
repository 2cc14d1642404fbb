import EntityCache.Error

/-!
# Locks with a lifetime

A lock service grants named locks to owners.  A lock lives for the lifetime it was acquired or
extended with, counted from that moment, and is gone at exactly the end of it; then any owner can
take it.  Acquiring a lock that one holds already restarts its lifetime.  Only the owner can extend
or release a lock.  All times are in milliseconds.

`Lock.Service` is such a service as a function of the clock reading, the request and its state.
-/

namespace EntityCache

namespace Lock

/-- A request to a lock service. -/
inductive Request where
  /-- Takes a lock unless another owner holds it. -/
  | acquire (key owner : String) (lifetime : Nat)
  /-- Extends a lock that is held. -/
  | heartbeat (key owner : String) (lifetime : Nat)
  /-- Gives a lock up. -/
  | release (key owner : String)
deriving DecidableEq, Repr

/-- The kinds of requests. -/
inductive Operation where
  | acquire | heartbeat | release
deriving DecidableEq, Repr

namespace Request

/-- The kind of a request. -/
def operation : Request → Operation
  | acquire .. => .acquire
  | heartbeat .. => .heartbeat
  | release .. => .release

/-- The lock that a request is about. -/
def key : Request → String
  | acquire key _ _ => key
  | heartbeat key _ _ => key
  | release key _ => key

/-- The owner that makes a request. -/
def owner : Request → String
  | acquire _ owner _ => owner
  | heartbeat _ owner _ => owner
  | release _ owner => owner

end Request

/-- The name of a kind of request. -/
def Operation.name : Operation → String
  | acquire => "acquire"
  | heartbeat => "heartbeat"
  | release => "release"

/-- A lock service with state `σ`.  The answer says whether a lock was granted or extended; a
release is always answered with `true`. -/
structure Service (σ : Type) where
  serve : Nat → Request → σ → Except StoreError Bool × σ

end Lock

end EntityCache
