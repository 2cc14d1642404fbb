import EntityCache.Store.Database
import EntityCache.Store.Memory

/-!
# Stores under observation

`Store.Backing` is a store of either kind.  `Store.Observed` stands in front of one: it records
every request, and it can be given faults that make chosen requests fail, or make a multi-key read
answer with the wrong number of slots.  A request that a fault hits is recorded like any other; one
that fails does not reach the store behind.
-/

namespace EntityCache

namespace Store

/-- A store of either kind. -/
inductive Backing where
  | memory (store : Memory)
  | database (store : Database)

namespace Backing

/-- Answers a request. -/
def serve (r : Request) : Backing → r.Reply × Backing
  | memory m =>
    let (reply, m) := m.serve r
    (reply, memory m)
  | database d =>
    let (reply, d) := d.serve r
    (reply, database d)

/-- Closes a database; a store in memory stays as it is. -/
def close : Backing → Backing
  | memory m => memory m
  | database d => database { d with isOpen := false }

end Backing

/-- What a fault does to a request. -/
inductive FaultEffect where
  /-- The request fails and is not carried out. -/
  | fail (error : StoreError)
  /-- A multi-key read loses its last slots. -/
  | short (slots : Nat)
  /-- A multi-key read gets empty slots at its end. -/
  | extra (slots : Nat)
deriving DecidableEq, Repr

/-- A fault: the kind of requests it is meant for (all kinds if none is given), how many of them
pass first, and how many are hit then (all if none is given). -/
structure Fault where
  operation : Option Operation
  effect : FaultEffect
  skip : Nat := 0
  times : Option Nat := none
deriving DecidableEq, Repr

namespace Fault

/-- Whether the fault is meant for a kind of requests. -/
def covers (f : Fault) (op : Operation) : Bool := f.operation.all (· == op)

/-- The effect that hits a request of a kind, and the faults afterwards.  They are tried in order:
one that still lets requests pass uses one of these up, the first one with hits left acts. -/
def choose (op : Operation) : List Fault → Option FaultEffect × List Fault
  | [] => (none, [])
  | f :: rest =>
    if !f.covers op || f.times == some 0 then
      let (effect, rest) := choose op rest
      (effect, f :: rest)
    else if f.skip = 0 then
      (some f.effect, { f with times := f.times.map (· - 1) } :: rest)
    else
      let (effect, rest) := choose op rest
      (effect, { f with skip := f.skip - 1 } :: rest)

end Fault

namespace FaultEffect

/-- The answer after a fault that does not make the request fail. -/
def distort : FaultEffect → (r : Request) → r.Answer → r.Answer
  | short n, .mget _, slots => slots.take (slots.length - n)
  | extra n, .mget _, slots => slots ++ List.replicate n none
  | _, _, answer => answer

end FaultEffect

/-- A store with its record of requests, newest first, and the faults that lie ahead. -/
structure Observed where
  backing : Backing
  calls : List Request := []
  faults : List Fault := []

namespace Observed

/-- Answers a request under observation. -/
def serve (r : Request) (o : Observed) : r.Reply × Observed :=
  let (effect, faults) := Fault.choose r.operation o.faults
  let o := { o with calls := r :: o.calls, faults }
  match effect with
  | some (.fail e) => (.error e, o)
  | none =>
    let (reply, backing) := o.backing.serve r
    (reply, { o with backing })
  | some effect =>
    let (reply, backing) := o.backing.serve r
    (reply.map (effect.distort r), { o with backing })

/-- The number of recorded requests of a kind. -/
def count (o : Observed) (op : Operation) : Nat := (o.calls.filter (·.operation == op)).length

/-- The number of recorded requests. -/
def total (o : Observed) : Nat := o.calls.length

/-- The requests recorded after the first `n`, oldest first. -/
def callsSince (o : Observed) (n : Nat) : List Request := (o.calls.take (o.total - n)).reverse

end Observed

end Store

end EntityCache
