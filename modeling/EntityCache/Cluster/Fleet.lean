import EntityCache.Cluster.Step

/-!
# Working with a fleet

A `Fleet` is a world with handles: names for schedules that were made and for cycles that were
started.  `Fleet.perform` carries out one action on it, lets everything happen that can happen at
that moment, and answers; the events since the answer before are handed out with it.

On a fleet whose locks are in a database nothing happens by itself right after an action: what it
has set going happens before the next one.  Such a fleet shows no times.
-/

namespace EntityCache

namespace Cluster

open Firing

/-- What a started cycle has come to. -/
inductive CycleHandle where
  /-- It took off with this number; it is under way or has landed. -/
  | flight (id : Nat)
  /-- It was abandoned. -/
  | aborted
deriving DecidableEq, Repr

/-- A fleet with handles. -/
structure Fleet where
  world : World
  /-- What was set going by an action happens only before the next one. -/
  lazy : Bool := false
  /-- Nodes and tasks of schedules by handle. -/
  schedules : Std.ExtTreeMap String (String × Nat) := ∅
  /-- Started cycles by handle. -/
  cycles : Std.ExtTreeMap String CycleHandle := ∅

/-- Something to do with a fleet. -/
inductive Action where
  | schedule (node agent : String) (script : Script) (handle : String)
  | unschedule (node agent : String)
  | shutdown (node : String)
  | types (node : String)
  /-- Cancels a schedule. -/
  | cancel (handle : String)
  /-- Whether a schedule has ended. -/
  | finished (handle : String)
  /-- Why a schedule has ended; the handle is gone afterwards. -/
  | join (handle : String)
  | advance (ms : Nat)
  /-- One cycle from its start to its end. -/
  | runCycle (node : Option String) (agent : String) (script : Script)
  | startCycle (node : Option String) (agent : String) (script : Script) (handle : String)
  /-- What a started cycle has come to; the handle is gone if it has landed. -/
  | finishCycle (handle : String)
  | abortCycle (handle : String)
  /-- A request to the lock service, past faults and events. -/
  | lock (request : Lock.Request)
  /-- The owner of a lock. -/
  | ownerOf (key : String)

/-- The answer to an action. -/
inductive Answer where
  | nothing
  | agent (agent : String)
  | flag (value : Bool)
  | types (agents : List String)
  /-- Why a schedule has ended; `none` if it has not. -/
  | exit (exit : Option Schedule.Exit)
  /-- How a cycle has ended; `none` if it has not. -/
  | ended (ended : Option Ended)
  | aborted
  | owner (owner : Option String)
  | failure (error : StoreError)

/-- What a node of a new fleet is made of; a node with probe results shares its agents. -/
structure NodePlan where
  name : String
  settings : SchedulerSettings
  /-- How it shares its agents with others. -/
  cluster : ClusterSettings := {}
  /-- The name of its process, which ends its identities. -/
  process : String := ""
  /-- The age, in milliseconds, at which it computes its identity again. -/
  refresh : Nat := 30000
  probes : Option (List ProbeResult) := none

namespace Fleet

/-- The node of a plan; `none` if its scheduler cannot be made. -/
def node? (plan : NodePlan) : Option Node :=
  (Schedule.Runner.new? plan.settings).map fun runner =>
    { runner, cluster := plan.cluster, process := plan.process
      resolver := plan.probes.map fun results => { refresh := plan.refresh, results } }

/-- The nodes of several plans. -/
def nodes? : List NodePlan → Option (List (String × Node))
  | [] => some []
  | plan :: rest =>
    match node? plan, nodes? rest with
    | some node, some nodes => some ((plan.name, node) :: nodes)
    | _, _ => none

/-- A new fleet; `none` if one of its schedulers cannot be made. -/
def new? (plans : List NodePlan) (locks : Lock.Faulty) : Option Fleet :=
  (nodes? plans).map fun nodes =>
    { world := { locks, nodes := Std.ExtTreeMap.ofList nodes }
      lazy := match locks.backing with
        | .memory _ => false
        | .database _ => true }

/-- Adds a script to the world; answers its number. -/
def addScript (script : Script) (w : World) : Nat × World :=
  (w.scripts.length, { w with scripts := w.scripts ++ [script] })

/-- A cycle that no task fires takes off; answers its number. -/
def takeOff (node : Option String) (agent : String) (script : Script) (w : World) : Nat × World :=
  let (job, w) := addScript script w
  w.launch { agent, job, node, task := none, program := w.firing agent node }

/-- A time within which a cycle that takes off now has landed: nobody waits for more probes than
there are flights, and its execution takes no longer than the longest one of its script. -/
def flightTime (node : Option String) (script : Script) (w : World) : Nat :=
  let longest := script.runs.foldl (fun n run => max n run.sleep) 0
  let results := ((node.bind (w.nodes[·]?)).bind (·.resolver)).elim [] (·.results)
  let delay := results.foldl (fun n result => max n result.delay) 0
  longest + delay * (w.flights.size + 1) + 1

/-- The task of a schedule's handle. -/
def taskOf? (handle : String) (f : Fleet) : Option Schedule.Task :=
  match f.schedules[handle]? with
  | none => none
  | some (node, id) => (f.world.nodes[node]?).bind (·.runner.tasks[id]?)

/-- Carries out a change of a node's runner that has an answer. -/
def onRunner {α : Type} (node : String) (op : Schedule.Runner → α × Schedule.Runner)
    (f : Fleet) : Option (α × Fleet) :=
  match f.world.nodes[node]? with
  | none => none
  | some n =>
    let (a, runner) := op n.runner
    some (a, { f with world := f.world.modifyNode node fun n => { n with runner } })

/-- Carries out an action. -/
def act (f : Fleet) : Action → Answer × Fleet
  | .schedule node agent script handle =>
    let (job, world) := addScript script f.world
    match { f with world }.onRunner node (·.schedule agent job f.world.now) with
    | some (id, f) => (.agent agent, { f with schedules := f.schedules.insert handle (node, id) })
    | none => (.nothing, f)
  | .unschedule node agent =>
    match f.onRunner node (·.unschedule agent) with
    | some (existed, f) => (.flag existed, f)
    | none => (.nothing, f)
  | .shutdown node =>
    match f.onRunner node fun r => ((), r.shutdown) with
    | some (_, f) => (.nothing, f)
    | none => (.nothing, f)
  | .types node => (((f.world.nodes[node]?).map fun n => n.runner.types).elim .nothing .types, f)
  | .cancel handle =>
    match f.schedules[handle]? with
    | some (node, id) =>
      (.nothing, { f with world := f.world.modifyNode node fun n =>
        { n with runner := n.runner.abort id } })
    | none => (.nothing, f)
  | .finished handle => ((f.taskOf? handle).elim .nothing fun t => .flag t.exit.isSome, f)
  | .join handle =>
    match f.taskOf? handle with
    | none => (.nothing, f)
    | some t =>
      (.exit t.exit, if t.exit.isSome then { f with schedules := f.schedules.erase handle } else f)
  | .advance ms => (.nothing, { f with world := f.world.advance ms })
  | .runCycle node agent script =>
    let time := flightTime node script f.world
    let (id, world) := takeOff node agent script f.world
    let world := world.settle.runUntil (id ∈ ·.landed) time
    (.ended world.landed[id]?, { f with world := { world with landed := world.landed.erase id } })
  | .startCycle node agent script handle =>
    let (id, world) := takeOff node agent script f.world
    (.nothing, { f with world, cycles := f.cycles.insert handle (.flight id) })
  | .finishCycle handle =>
    match f.cycles[handle]? with
    | none => (.nothing, f)
    | some .aborted => (.aborted, { f with cycles := f.cycles.erase handle })
    | some (.flight id) =>
      match f.world.landed[id]? with
      | some ended => (.ended ended, { f with cycles := f.cycles.erase handle })
      | none => (.ended none, f)
  | .abortCycle handle =>
    match f.cycles[handle]? with
    | some (.flight id) =>
      if id ∈ f.world.landed then (.nothing, f)
      else
        (.nothing, { f with
          world := f.world.step (.abandon id), cycles := f.cycles.insert handle .aborted })
    | _ => (.nothing, f)
  | .lock request =>
    let (reply, backing) := f.world.locks.backing.serve f.world.now request
    let f := { f with world := { f.world with locks := { f.world.locks with backing } } }
    match reply, request with
    | .error e, _ => (.failure e, f)
    | .ok _, .release .. => (.nothing, f)
    | .ok granted, _ => (.flag granted, f)
  | .ownerOf key => (.owner (f.world.locks.backing.ownerOf f.world.now key), f)

/-- The time as it is shown. -/
def shownTime (f : Fleet) : Nat := if f.lazy then 0 else f.world.now

/-- The recorded events, by time and then by agent, as they happened. -/
def events (f : Fleet) : List Entry :=
  let entries := f.world.log.reverse.map fun e => if f.lazy then { e with time := 0 } else e
  entries.mergeSort fun a b => a.time < b.time || (a.time == b.time && (compare a.agent b.agent).isLE)

/-- Everything happens that can happen at this moment. -/
def settle (f : Fleet) : Fleet := { f with world := f.world.settle }

/-- Carries out an action and hands out its answer, the time and the events. -/
def perform (action : Action) (f : Fleet) : (Answer × Nat × List Entry) × Fleet :=
  let f := if f.lazy then f.settle else f
  let (answer, f) := f.act action
  let f := if f.lazy then f else f.settle
  ((answer, f.shownTime, f.events), { f with world := { f.world with log := [] } })

end Fleet

end Cluster

end EntityCache
