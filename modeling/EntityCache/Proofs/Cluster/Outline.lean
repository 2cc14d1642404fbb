import EntityCache.Cluster.Fleet
import EntityCache.Proofs.Firing.Protocol
import Mathlib.Logic.Function.Basic

/-!
# What can happen to a fleet

An `Act` is a move, a cycle that is started on a node, or a change of a node's schedules; a run is a
list of acts.  `World.outline` keeps of a world what its locks and marks depend on, and
`Outline.Step` says once what an act can do to that: every invariant of a fleet is proved from its
constructors.  That acts can do nothing else is `World.step_act`, in `Steps`.
-/

namespace EntityCache

namespace Cluster

open Firing Function

/-! ## Runs -/

/-- Something that happens to a fleet: of itself, or from outside. -/
inductive Act where
  | move (m : Move)
  /-- A cycle starts on a node that no task of the node has fired. -/
  | start (node agent : String) (script : Script)
  /-- The schedules of a node change, with new scripts for what they fire. -/
  | reschedule (node : String) (change : Schedule.Runner → Schedule.Runner) (scripts : List Script)

namespace World

/-- The world after an act.  Only a node that is there starts cycles. -/
def act : Act → World → World
  | .move m, w => w.step m
  | .start node agent script, w =>
    if node ∈ w.nodes then (Fleet.takeOff (some node) agent script w).2 else w
  | .reschedule node change scripts, w =>
    ({ w with scripts := w.scripts ++ scripts }).modifyNode node fun n =>
      { n with runner := change n.runner }

/-- The world after a run. -/
def run : List Act → World → World
  | [], w => w
  | a :: acts, w => run acts (w.act a)

/-- `P` holds of every world on the way of a run, the first and the last one included. -/
def Always (P : World → Prop) : List Act → World → Prop
  | [], w => P w
  | a :: acts, w => P w ∧ Always P acts (w.act a)

instance Always.decidable {P : World → Prop} [DecidablePred P] :
    (acts : List Act) → (w : World) → Decidable (w.Always P acts)
  | [], w => inferInstanceAs (Decidable (P w))
  | a :: acts, w =>
    have := Always.decidable (P := P) acts (w.act a)
    inferInstanceAs (Decidable (P w ∧ (w.act a).Always P acts))

/-- `P` holds of every act of a run and the world that it happens to. -/
def Each (P : Act → World → Prop) : List Act → World → Prop
  | [], _ => True
  | a :: acts, w => P a w ∧ Each P acts (w.act a)

instance Each.decidable {P : Act → World → Prop} [∀ a w, Decidable (P a w)] :
    (acts : List Act) → (w : World) → Decidable (w.Each P acts)
  | [], _ => inferInstanceAs (Decidable True)
  | a :: acts, w =>
    have := Each.decidable (P := P) acts (w.act a)
    inferInstanceAs (Decidable (P a w ∧ (w.act a).Each P acts))

/-- What always holds holds at the start. -/
theorem Always.head {P : World → Prop} {acts : List Act} {w : World} (h : w.Always P acts) :
    P w := by
  cases acts with
  | nil => exact h
  | cons a acts => exact h.1

/-- Acts in two parts, one after the other. -/
theorem run_append (acts later : List Act) (w : World) :
    w.run (acts ++ later) = (w.run acts).run later := by
  induction acts generalizing w with
  | nil => rfl
  | cons a acts ih => exact ih (w.act a)

/-- What holds before each act of a list holds before those of its parts. -/
theorem each_append {P : Act → World → Prop} {acts later : List Act} {w : World} :
    w.Each P (acts ++ later) ↔ w.Each P acts ∧ (w.run acts).Each P later := by
  induction acts generalizing w with
  | nil => exact ⟨fun h => ⟨trivial, h⟩, And.right⟩
  | cons a acts ih => exact (and_congr_right' ih).trans and_assoc.symm

/-- What always holds brings along what follows from it. -/
theorem Always.imp {P Q : World → Prop} (hPQ : ∀ w, P w → Q w) {acts : List Act} {w : World}
    (h : w.Always P acts) : w.Always Q acts := by
  induction acts generalizing w with
  | nil => exact hPQ w h
  | cons a acts ih => exact ⟨hPQ w h.1, ih h.2⟩

end World

/-! ## Outlines -/

/-- What flights see of a node. -/
structure Post where
  resolver : Option Resolver
  active : Names

/-- Marks an agent as active, or takes the mark back. -/
def Post.mark (agent : String) (active : Bool) (post : Post) : Post :=
  { post with active := if active then post.active.insert agent else post.active.erase agent }

/-- A caller gives the resolver up. -/
def Post.giveUp (caller : Nat) (post : Post) : Post :=
  { post with resolver := post.resolver.map (Resolver.abandon caller) }

/-- What an abandoned flight leaves of its node: its mark is taken back, and the resolver is given
up. -/
def Post.leave (id : Nat) (f : Flight) (post : Post) : Post :=
  (if f.entered then post.mark f.agent false else post).giveUp id

/-- What the locks and marks of a fleet depend on. -/
structure Outline where
  now : Nat
  /-- How nodes share their agents. -/
  settings : Option String → ClusterSettings
  /-- The names of the processes of nodes. -/
  process : String → String
  nodes : String → Option Post
  locks : Lock.Faulty
  flights : Nat → Option Flight
  nextFlight : Nat
  releases : List LeftLock

/-- What flights see of a node. -/
def Node.post (node : Node) : Post := ⟨node.resolver, node.active⟩

/-- A world without what its locks and marks do not depend on. -/
def World.outline (w : World) : Outline where
  now := w.now
  settings place := w.settings place
  process name := w.nodes[name]?.elim "" (·.process)
  nodes name := w.nodes[name]?.map (·.post)
  locks := w.locks
  flights id := w.flights[id]?
  nextFlight := w.nextFlight
  releases := w.releases

namespace Outline

/-- The name of the lock of a flight's agent. -/
def lockKey (f : Flight) (c : Outline) : String := (c.settings f.node).lockPrefix ++ f.agent

/-- The program of a firing on a node. -/
def firing (agent name : String) (c : Outline) : Steps Ended :=
  if ∃ post, c.nodes name = some post ∧ post.resolver.isSome then guarded (c.process name) agent
  else unguarded agent

/-- Changes the node of a name, if there is a name and a node. -/
def amend (place : Option String) (g : Post → Post) (c : Outline) : Outline :=
  { c with nodes := fun name => if place = some name then (c.nodes name).map g else c.nodes name }

/-- Puts a flight in the place of another one, or takes one away. -/
def put (id : Nat) (f : Option Flight) (c : Outline) : Outline :=
  { c with flights := update c.flights id f }

/-- The node of a flight has marked its agent. -/
def Active (f : Flight) (c : Outline) : Prop :=
  ∃ name post, f.node = some name ∧ c.nodes name = some post ∧ f.agent ∈ post.active

/-- Puts a request to the lock service. -/
def ask (r : Lock.Request) (c : Outline) : Outline :=
  { c with locks := (c.locks.serve c.now r).2 }

/-- A new flight takes off. -/
def launch (f : Flight) (c : Outline) : Outline :=
  { c.put c.nextFlight (some f) with nextFlight := c.nextFlight + 1 }

/-- To put a flight where it already is changes nothing. -/
theorem put_self {c : Outline} {id : Nat} {f : Flight} (h : c.flights id = some f) :
    c.put id (some f) = c := by
  rw [put, ← h, update_eq_self]

theorem amend_id (place : Option String) (c : Outline) : c.amend place id = c := by
  simp [amend]

/-- Two changes to a node are one. -/
theorem amend_amend (place : Option String) (g h : Post → Post) (c : Outline) :
    (c.amend place g).amend place h = c.amend place (h ∘ g) := by
  have hnodes (name : String) : (if place = some name then
        (if place = some name then (c.nodes name).map g else c.nodes name).map h
      else if place = some name then (c.nodes name).map g else c.nodes name) =
      if place = some name then (c.nodes name).map (h ∘ g) else c.nodes name := by
    split <;> simp
  simp only [amend, hnodes]

/-- A place without a node has nothing to change. -/
theorem amend_none (g : Post → Post) (c : Outline) : c.amend none g = c := by
  simp [amend]

/-- A change to a node and one to a flight can be made in any order. -/
theorem amend_put (place : Option String) (g : Post → Post) (id : Nat) (f : Option Flight)
    (c : Outline) : (c.put id f).amend place g = (c.amend place g).put id f := rfl

/-- The last change to a flight decides. -/
theorem put_put (id : Nat) (f g : Option Flight) (c : Outline) :
    (c.put id f).put id g = c.put id g := by simp [put]

/-- Locks are left to be released. -/
def leave (left : List LeftLock) (c : Outline) : Outline :=
  { c with releases := c.releases ++ left }

/-- The request for a lock. -/
def acquire (f : Flight) (owner : String) (c : Outline) : Lock.Request :=
  .acquire (c.lockKey f) owner (c.settings f.node).lockLifetime

/-- The request that extends a lock that a flight holds. -/
def heartbeat (f : Flight) (held : HeldLock) (c : Outline) : Lock.Request :=
  .heartbeat held.key held.owner (c.settings f.node).lockLifetime

/-- What a flight asks of the lock service, if its request is for the lock. -/
def asked (f : Flight) (c : Outline) : Request → Option Lock.Request
  | .acquire owner => some (c.acquire f owner)
  | .release owner => some (.release (c.lockKey f) owner)
  | _ => none

/-- What an act asks of the lock service, if it asks anything. -/
def request? (c : Outline) : Act → Option Lock.Request
  | .move (.resume id) => do
    let f ← c.flights id
    match f.program with
    | .ask r _ => c.asked f r
    | .done _ => none
  | .move (.beat id) => do
    let f ← c.flights id
    let held ← f.lock
    let due ← held.nextBeat
    if due ≤ c.now then some (c.heartbeat f held) else none
  | .move (.release index) => do
    let left ← c.releases[index]?
    some (.release left.key left.owner)
  | _ => none

/-- The lock of a flight's agent that has just been granted to an owner. -/
def granted (f : Flight) (owner : String) (c : Outline) : HeldLock where
  key := c.lockKey f
  owner := owner
  renewed := c.now
  nextBeat := some (c.now + (c.settings f.node).heartbeatInterval)

/-- A request of a flight is answered: `f'` is the flight afterwards, before it goes on with its
program, and `c'` everything else. -/
def Served (id : Nat) (f : Flight) (c : Outline) :
    (r : Request) → r.Reply → Flight → Outline → Prop
  | .resolve q, reply, f', c' =>
    ∃ name post resolver resolver', f.node = some name ∧ c.nodes name = some post ∧
      post.resolver = some resolver ∧ resolver.serve c.now id q = some (reply, resolver') ∧
      f' = f ∧ c' = c.amend f.node fun post => { post with resolver := some resolver' }
  | .enter, reply, f', c' =>
    (reply = false ∧ f' = f ∧ c' = c) ∨
      (reply = true ∧ ¬c.Active f ∧ f' = { f with entered := true } ∧
        c' = c.amend f.node (Post.mark f.agent true))
  | .leave, _, f', c' =>
    f' = { f with entered := false } ∧
      c' = c.amend f.node (Post.mark f.agent false)
  | .acquire owner, reply, f', c' =>
    reply = (c.locks.serve c.now (c.acquire f owner)).1 ∧
      c' = c.ask (c.acquire f owner) ∧
      (reply = .ok true → f' = { f with lock := some (c.granted f owner) }) ∧
      (reply ≠ .ok true → f' = f)
  | .release owner, _, f', c' =>
    f' = { f with lock := none } ∧ c' = c.ask (.release (c.lockKey f) owner)
  | .call r, _, f', c' =>
    c' = c ∧ ∃ execution : Option (Nat × Nat),
      f' = { f with execution } ∧ execution.isSome = r.leaves f.execution.isSome
  | .guarded r, reply, f', c' =>
    c' = c ∧ ∃ execution : Option (Nat × Nat), f' = { f with execution } ∧
      ((reply = none ∧ execution = none) ∨
        (reply.isSome ∧ execution.isSome = r.leaves f.execution.isSome))

/-- What an act can do. -/
inductive Step : Act → Outline → Outline → Prop where
  /-- Nothing, apart from time passing. -/
  | rest {a : Act} {c : Outline} {now : Nat} (later : c.now ≤ now) : Step a c { c with now }
  | launch {a : Act} {c : Outline} {name agent : String} {post : Post} {job : Nat}
      {task : Option Nat} (node : c.nodes name = some post) :
      Step a c
        (c.launch { agent, job, node := some name, task, program := c.firing agent name })
  | land {c : Outline} {id : Nat} {f : Flight} {ended : Ended} (flies : c.flights id = some f)
      (done : f.program = .done ended) : Step (.move (.resume id)) c (c.put id none)
  | resume {c c' : Outline} {id : Nat} {f f' : Flight} {r : Request} {next : r.Reply → Steps Ended}
      {reply : r.Reply} (flies : c.flights id = some f) (asks : f.program = .ask r next)
      (served : Served id f c r reply f' c') :
      Step (.move (.resume id)) c (c'.put id (some { f' with program := next reply }))
  | beat {c : Outline} {id : Nat} {f : Flight} {held : HeldLock} {due : Nat}
      {reply : Except StoreError Bool} (flies : c.flights id = some f) (holds : f.lock = some held)
      (beats : held.nextBeat = some due) (reached : due ≤ c.now)
      (answered : (c.locks.serve c.now (c.heartbeat f held)).1 = reply) :
      Step (.move (.beat id)) c
        ((c.ask (c.heartbeat f held)).put id (some { f with
          lock := some (held.beaten c.now due (c.settings f.node).heartbeatInterval reply) }))
  | release {c : Outline} {index : Nat} {left : LeftLock}
      (remains : c.releases[index]? = some left) :
      Step (.move (.release index)) c
        { c.ask (.release left.key left.owner) with releases := c.releases.eraseIdx index }
  | abandon {c : Outline} {id : Nat} {f : Flight} (flies : c.flights id = some f) :
      Step (.move (.abandon id)) c
        (((c.amend f.node (Post.leave id f)).put id none).leave f.leftLock?.toList)

end Outline

end Cluster

end EntityCache
