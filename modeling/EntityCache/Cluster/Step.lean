import EntityCache.Cluster.Basic

/-!
# Moves of a fleet

A `Move` is the smallest thing that can happen in a fleet: a task fires or ends, a waiting cycle
gets a permit, a flight makes its next request, a heartbeat is due, a lock that was left behind is
released, time passes, or a flight is abandoned from outside.  `World.step` makes a move; one that
is not possible changes nothing.  Any sequence of moves is a run of the fleet.

`World.next?` picks the moves of the run in which everything happens as soon as it can, and
`World.advance` follows it while time passes.
-/

namespace EntityCache

namespace Cluster

open Firing

/-- The smallest thing that can happen in a fleet. -/
inductive Move where
  /-- A task of a node fires. -/
  | fire (node : String) (task : Nat)
  /-- A task of a node ends. -/
  | exit (node : String) (task : Nat)
  /-- A waiting cycle of a node gets a permit and takes off. -/
  | grant (node : String)
  /-- A flight makes its next request, or lands at the end of its program. -/
  | resume (flight : Nat)
  /-- The heartbeat of a flight that holds a lock. -/
  | beat (flight : Nat)
  /-- The lock of an abandoned flight is released. -/
  | release (index : Nat)
  /-- A flight is abandoned from outside. -/
  | abandon (flight : Nat)
  /-- Time passes. -/
  | pass (ms : Nat)
deriving DecidableEq, Repr

namespace World

/-- A new flight takes off; answers its number. -/
def launch (flight : Flight) (w : World) : Nat × World :=
  (w.nextFlight, { w with
    flights := w.flights.insert w.nextFlight flight, nextFlight := w.nextFlight + 1 })

/-- The program of a firing on a node, or on none. -/
def firing (agent : String) (node : Option String) (w : World) : Steps Ended :=
  match node.bind (w.nodes[·]?) with
  | some { resolver := some _, process, .. } => guarded process agent
  | _ => unguarded agent

/-- A waiting cycle of a node gets a permit and takes off. -/
def grant (name : String) (w : World) : World :=
  match w.nodes[name]? with
  | none => w
  | some node =>
    match node.runner.grant? with
    | none => w
    | some (id, runner) =>
      match runner.tasks[id]? with
      | none => w
      | some task =>
        let w := { w with nodes := w.nodes.insert name { node with runner } }
        (w.launch
          { agent := task.agent, job := task.job, node := some name, task := some id,
            program := w.firing task.agent (some name) }).2

/-- What a runner learns from the end of a cycle. -/
def failureOf : Ended → Option CallbackError
  | .unreported e => some e
  | _ => none

/-- A flight lands. -/
def land (id : Nat) (flight : Flight) (ended : Ended) (w : World) : World :=
  let w := { w with flights := w.flights.erase id }
  match flight.node, flight.task with
  | some name, some task =>
    w.modifyNode name fun node => { node with runner := node.runner.finish task (failureOf ended) }
  | _, _ => { w with landed := w.landed.insert id ended }

/-- A flight makes its next request, or lands. -/
def resume (id : Nat) (w : World) : World :=
  match w.flights[id]? with
  | none => w
  | some flight =>
    match flight.program with
    | .done ended => w.land id flight ended
    | .ask r next =>
      match w.serve id flight r with
      | some (reply, w) => w.modifyFlight id fun f => { f with program := next reply }
      | none => w

/-- The heartbeat of a flight that holds a lock. -/
def beat (id : Nat) (w : World) : World :=
  match w.flights[id]? with
  | none => w
  | some flight =>
    match flight.lock with
    | none => w
    | some held =>
      match held.nextBeat with
      | none => w
      | some due =>
        if due ≤ w.now then
          let settings := w.settings flight.node
          let (reply, w) :=
            w.askLock flight.agent (.heartbeat held.key held.owner settings.lockLifetime)
          w.modifyFlight id fun f =>
            { f with lock := some (held.beaten w.now due settings.heartbeatInterval reply) }
        else w

/-- The lock of an abandoned flight is released. -/
def releaseAbandoned (index : Nat) (w : World) : World :=
  match w.releases[index]? with
  | none => w
  | some left =>
    ({ w with releases := w.releases.eraseIdx index }.askLock left.agent
      (.release left.key left.owner)).2

/-- A flight is abandoned: its lock is left to be released, and its mark is taken back. -/
def abandon (id : Nat) (w : World) : World :=
  match w.flights[id]? with
  | none => w
  | some flight =>
    let w := if flight.entered then w.setActive id flight false else w
    let w := { w with releases := w.releases ++ flight.leftLock?.toList }
    let w := match flight.node with
      | some name => w.modifyNode name fun node =>
          { node with resolver := node.resolver.map (Resolver.abandon id) }
      | none => w
    { w with flights := w.flights.erase id }

/-- Makes a move. -/
def step : Move → World → World
  | .fire name task, w =>
    w.modifyNode name fun node => { node with runner := node.runner.fire task w.now }
  | .exit name task, w =>
    w.modifyNode name fun node => { node with runner := node.runner.exitTask task }
  | .grant name, w => w.grant name
  | .resume id, w => w.resume id
  | .beat id, w => w.beat id
  | .release index, w => w.releaseAbandoned index
  | .abandon id, w => w.abandon id
  | .pass ms, w => { w with now := w.now + ms }

/-! ## The run in which everything happens as soon as it can -/

/-- Whether a flight can go on now. -/
def isReady (id : Nat) (flight : Flight) (w : World) : Bool :=
  match flight.program with
  | .done _ => true
  | .ask r _ => (w.serve id flight r).isSome

/-- The tasks of a node that satisfy `p`, with their numbers. -/
def tasksWhere (p : Schedule.Task → Bool) (node : Node) : List Nat :=
  (List.range node.runner.tasks.length).filter fun id => node.runner.tasks[id]?.any p

/-- A move of a node's runner. -/
def runnerMove? (now : Nat) (name : String) (node : Node) : Option Move :=
  match tasksWhere (fun t => (Schedule.Runner.Task.ending? t).isSome) node with
  | id :: _ => some (.exit name id)
  | [] =>
    if node.runner.grant?.isSome then some (.grant name)
    else (tasksWhere (fun t => t.isLive && t.due ≤ now) node).head?.map (.fire name)

/-- The next move: flights first, the one that took off earliest before the others, then the
runners, heartbeats, and locks left behind. -/
def next? (w : World) : Option Move :=
  let flights := w.flights.toList
  (flights.find? fun (id, flight) => w.isReady id flight).map (.resume ·.1) <|>
  w.nodes.toList.findSome? (fun (name, node) => runnerMove? w.now name node) <|>
  (flights.find? fun (_, flight) =>
    (flight.lock.bind (·.nextBeat)).any (· ≤ w.now)).map (.beat ·.1) <|>
  if w.releases.isEmpty then none else some (.release 0)

/-- A number of moves that is enough for everything that can happen at one moment: a task fires at
most once, and a cycle makes fewer than thirty moves. -/
def moveLimit (w : World) : Nat :=
  let cycles := w.nodes.toList.foldl
    (fun n entry => n + entry.2.runner.tasks.length + entry.2.runner.waiting.length)
    w.flights.size
  32 * (cycles + 1) + w.releases.length

/-- Makes moves until none is left for this moment. -/
def settleIn : Nat → World → World
  | 0, w => w
  | fuel + 1, w =>
    match w.next? with
    | some move => settleIn fuel (w.step move)
    | none => w

/-- Everything happens that can happen at this moment. -/
def settle (w : World) : World := settleIn w.moveLimit w

/-- The next moment after this one at which something can happen. -/
def nextMoment? (w : World) : Option Nat :=
  let ofNode (node : Node) : List Nat :=
    (node.runner.tasks.filter (·.isLive)).map (·.due) ++ (node.resolver.bind (·.due?)).toList
  let ofFlight (flight : Flight) : List Nat :=
    (flight.execution.map (·.2)).toList ++ (flight.lock.bind (·.nextBeat)).toList
  (((w.nodes.toList.flatMap fun entry => ofNode entry.2) ++
    w.flights.toList.flatMap fun entry => ofFlight entry.2).filter (w.now < ·)).min?

/-- The time to the next moment at which something can happen, if that is within `remaining`
milliseconds. -/
def wait? (remaining : Nat) (w : World) : Option Nat :=
  w.nextMoment?.bind fun moment =>
    if w.now < moment ∧ moment - w.now ≤ remaining then some (moment - w.now) else none

theorem wait?_bounds {remaining ms : Nat} {w : World} (h : w.wait? remaining = some ms) :
    0 < ms ∧ ms ≤ remaining := by
  obtain ⟨moment, _, h⟩ := Option.bind_eq_some_iff.1 h
  split at h <;> simp only [Option.some.injEq, reduceCtorEq] at h
  omega

/-- Starts at a moment at which nothing is left to happen, and lets time pass until `stop` holds or
`remaining` milliseconds are over, and everything happen in between. -/
def runUntil (stop : World → Bool) (remaining : Nat) (w : World) : World :=
  if stop w then w
  else
    match _h : w.wait? remaining with
    | some ms => runUntil stop (remaining - ms) (w.step (.pass ms)).settle
    | none => w.step (.pass remaining)
termination_by remaining
decreasing_by
  have := wait?_bounds _h
  omega

/-- Lets time pass, and everything happen in between. -/
def advance (ms : Nat) (w : World) : World := (w.settle.runUntil (fun _ => false) ms).settle

end World

end Cluster

end EntityCache
