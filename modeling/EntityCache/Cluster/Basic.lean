import EntityCache.Cluster.Script
import EntityCache.Config.Basic
import EntityCache.Firing.Guarded
import EntityCache.Entity.Basic
import EntityCache.Lock.Faulty
import EntityCache.Schedule.Runner

/-!
# A fleet of nodes

A `World` holds the nodes of a fleet, the lock service that they share, the cycles that are under
way, and the time.  Every node has a runner; a node that shares its agents with the others also has
settings of its own for that, a resolver and the set of agents that it is executing.

A `Flight` is a cycle under way: the rest of its program, and what it has taken and has to give
back.  `World.serve` answers one request of a flight, or makes it wait.  What happens is recorded
as events.
-/

namespace EntityCache

namespace Cluster

open Firing

/-- Something that happened. -/
inductive Event where
  | started
  | completed
  | failed (error : ErrorChain)
  /-- The execution of a number begins. -/
  | execute (n : Nat)
  /-- The execution of a number has come to its end. -/
  | executed (n : Nat)
  /-- A request to the lock service, with its answer. -/
  | lock (request : Lock.Request) (reply : Except StoreError Bool)

/-- An event with its moment and its agent. -/
structure Entry where
  time : Nat
  agent : String
  event : Event

/-- A node of a fleet. -/
structure Node where
  runner : Schedule.Runner
  /-- How it shares its agents with others. -/
  cluster : ClusterSettings := {}
  /-- The name of its process, which ends its identities. -/
  process : String := ""
  /-- Present on a node that shares its agents with others. -/
  resolver : Option Resolver := none
  /-- The agents that this node is executing. -/
  active : Names := ∅

/-- A lock that a flight holds.  It is the flight's own from the moment `renewed` on, at which it
was acquired, or extended for the last time. -/
structure HeldLock where
  key : String
  owner : String
  renewed : Nat
  /-- The moment at which the next heartbeat is due, if there is one. -/
  nextBeat : Option Nat
  /-- A heartbeat has failed. -/
  lost : Bool := false
deriving DecidableEq, Repr

/-- A lock after a heartbeat that was due at `due` and is made now.  Heartbeats are due at intervals
from the acquisition on, however late one of them is made; after one that fails there is no
other. -/
def HeldLock.beaten (now due interval : Nat) (held : HeldLock) : Except StoreError Bool → HeldLock
  | .ok true => { held with renewed := now, nextBeat := some (due + interval) }
  | _ => { held with nextBeat := none, lost := true }

/-- A lock that an abandoned flight has left to be released. -/
structure LeftLock where
  agent : String
  key : String
  owner : String
deriving DecidableEq, Repr

/-- A cycle under way. -/
structure Flight where
  agent : String
  /-- The script that it follows. -/
  job : Nat
  /-- The node that it runs on, if any. -/
  node : Option String
  /-- The task of that node's runner that fired it, if it was fired by one. -/
  task : Option Nat
  /-- The rest of its program. -/
  program : Steps Ended
  /-- The number of the execution that has begun, and the moment of its end. -/
  execution : Option (Nat × Nat) := none
  /-- It has marked its agent as active. -/
  entered : Bool := false
  lock : Option HeldLock := none

/-- What a flight leaves of its lock when it is abandoned. -/
def Flight.leftLock? (flight : Flight) : Option LeftLock :=
  flight.lock.map fun held => ⟨flight.agent, held.key, held.owner⟩

/-- A fleet. -/
structure World where
  now : Nat := 0
  nodes : Std.ExtTreeMap String Node := ∅
  locks : Lock.Faulty := { backing := .memory ∅ }
  scripts : List Script := []
  flights : Std.ExtTreeMap Nat Flight := ∅
  /-- The number of the next flight. -/
  nextFlight : Nat := 0
  /-- How flights that no task has fired have ended. -/
  landed : Std.ExtTreeMap Nat Ended := ∅
  /-- The locks of abandoned flights that are still to be released. -/
  releases : List LeftLock := []
  /-- What has happened, the latest first. -/
  log : List Entry := []

namespace World

/-- How the node of a flight shares its agents. -/
def settings (place : Option String) (w : World) : ClusterSettings :=
  (place.bind (w.nodes[·]?)).elim {} (·.cluster)

/-- The name of the lock of a flight's agent. -/
def lockKey (flight : Flight) (w : World) : String :=
  (w.settings flight.node).lockPrefix ++ flight.agent

/-- Records an event of an agent. -/
def record (agent : String) (event : Event) (w : World) : World :=
  { w with log := ⟨w.now, agent, event⟩ :: w.log }

/-- Changes a node. -/
def modifyNode (name : String) (f : Node → Node) (w : World) : World :=
  match w.nodes[name]? with
  | some node => { w with nodes := w.nodes.insert name (f node) }
  | none => w

/-- Changes a flight. -/
def modifyFlight (id : Nat) (f : Flight → Flight) (w : World) : World :=
  match w.flights[id]? with
  | some flight => { w with flights := w.flights.insert id (f flight) }
  | none => w

/-- Lets a script decide about a call. -/
def consult {α : Type} (job : Nat) (f : Script → α × Script) (w : World) : α × World :=
  let (a, script) := f (w.scripts.getD job {})
  (a, { w with scripts := w.scripts.set job script })

/-- Puts a request to the lock service and records it for an agent. -/
def askLock (agent : String) (r : Lock.Request) (w : World) : Except StoreError Bool × World :=
  let (reply, locks) := w.locks.serve w.now r
  (reply, ({ w with locks }).record agent (.lock r reply))

/-! ## Requests of a flight -/

/-- Answers a call of an agent; the end of an execution has to wait for its moment. -/
def serveAgent (id : Nat) (flight : Flight) : (r : AgentRequest) → World → Option (r.Reply × World)
  | .started, w =>
    let (reaction, w) := (w.record flight.agent .started).consult flight.job Script.started
    some (reaction, w)
  | .execute, w =>
    let (n, w) := w.consult flight.job Script.execute
    let sleep := ((w.scripts.getD flight.job {}).run n).sleep
    some ((), (w.record flight.agent (.execute n)).modifyFlight id fun f =>
      { f with execution := some (n, w.now + sleep) })
  | .finish, w =>
    match flight.execution with
    | none => some (.ok, w)
    | some (n, due) =>
      if due ≤ w.now then
        some (((w.scripts.getD flight.job {}).run n).reaction,
          (w.record flight.agent (.executed n)).modifyFlight id fun f => { f with execution := none })
      else none
  | .completed, w =>
    let (reaction, w) := (w.record flight.agent .completed).consult flight.job Script.completed
    some (reaction, w)
  | .failed error, w =>
    let (reaction, w) := (w.record flight.agent (.failed error)).consult flight.job Script.failed
    some (reaction, w)

/-- Answers a request to the resolver of a flight's node. -/
def serveResolver (id : Nat) (flight : Flight) (q : Identity.Request) (w : World) :
    Option (q.Reply × World) :=
  match flight.node with
  | none => none
  | some name =>
    match w.nodes[name]? with
    | none => none
    | some node =>
      match node.resolver with
      | none => none
      | some resolver =>
        (resolver.serve w.now id q).map fun (reply, resolver) =>
          (reply, { w with nodes := w.nodes.insert name { node with resolver := some resolver } })

/-- Whether the node of a flight is executing its agent. -/
def isActive (flight : Flight) (w : World) : Bool :=
  match flight.node.bind (w.nodes[·]?) with
  | some node => flight.agent ∈ node.active
  | none => false

/-- Marks the agent of a flight as active on its node, or takes the mark back. -/
def setActive (id : Nat) (flight : Flight) (active : Bool) (w : World) : World :=
  let w := w.modifyFlight id fun f => { f with entered := active }
  match flight.node with
  | none => w
  | some name =>
    w.modifyNode name fun node =>
      { node with
        active := if active then node.active.insert flight.agent else node.active.erase flight.agent }

/-- Answers a request of a flight; `none` if it has to wait. -/
def serve (id : Nat) (flight : Flight) : (r : Request) → World → Option (r.Reply × World)
  | .resolve q, w => w.serveResolver id flight q
  | .enter, w =>
    if w.isActive flight then some (false, w) else some (true, w.setActive id flight true)
  | .leave, w => some ((), w.setActive id flight false)
  | .acquire owner, w =>
    let key := w.lockKey flight
    let settings := w.settings flight.node
    let (reply, w) := w.askLock flight.agent (.acquire key owner settings.lockLifetime)
    match reply with
    | .ok true =>
      let nextBeat := some (w.now + settings.heartbeatInterval)
      some (.ok true, w.modifyFlight id fun f =>
        { f with lock := some { key, owner, renewed := w.now, nextBeat } })
    | reply => some (reply, w)
  | .release owner, w =>
    let w := w.modifyFlight id fun f => { f with lock := none }
    some ((), (w.askLock flight.agent (.release (w.lockKey flight) owner)).2)
  | .call r, w => w.serveAgent id flight r
  | .guarded r, w =>
    if flight.lock.any (·.lost) then
      some (none, w.modifyFlight id fun f => { f with execution := none })
    else (w.serveAgent id flight r).map fun (reply, w) => (some reply, w)

end World

end Cluster

end EntityCache
