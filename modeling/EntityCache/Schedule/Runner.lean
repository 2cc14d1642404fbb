import EntityCache.Config.Basic
import EntityCache.Error
import Std.Data.ExtTreeMap

/-!
# Recurring firings

A `Runner` keeps one schedule for each agent and fires it at a fixed interval, for the first time
at once.  Each firing is a cycle that waits for one of a fixed number of permits, in the order of
firing, and gives it back when it ends in whatever way.

A schedule is a `Task`.  It ends when it is cancelled or when it learns that a failure of one of
its cycles could not be reported; cycles that are waiting or running then go on.  The registry maps
an agent to its latest task; scheduling an agent again replaces and cancels the task before.  A task
that ends takes its entry out of the registry, unless the entry is a newer one's.

Under `OverlapPolicy.skip` a task does not fire while a cycle of its own is waiting or running.
-/

namespace EntityCache

namespace Schedule

/-- Why a schedule ended. -/
inductive Exit where
  | cancelled
  | callbackFailed (error : CallbackError)
  | panicked
deriving DecidableEq, Repr

/-- A schedule. -/
structure Task where
  agent : String
  /-- What the schedule fires. -/
  job : Nat
  /-- The moment of the next firing. -/
  due : Nat
  /-- Under `OverlapPolicy.skip`: a cycle of this task is waiting or running. -/
  busy : Bool := false
  /-- Failures of its cycles that could not be reported and that the task has not learned of. -/
  failures : List CallbackError := []
  /-- The task has been told to end. -/
  aborted : Bool := false
  exit : Option Exit := none
deriving DecidableEq, Repr

/-- A task that still fires. -/
def Task.isLive (t : Task) : Bool := !t.aborted && t.exit.isNone

/-- All schedules of a scheduler, numbered in the order in which they were made. -/
structure Runner where
  interval : Nat
  policy : OverlapPolicy
  /-- The number of permits. -/
  capacity : Nat
  /-- Permits that are free. -/
  available : Nat
  registry : Std.ExtTreeMap String Nat := ∅
  tasks : List Task := []
  /-- The tasks of the cycles that wait for a permit, first come, first served. -/
  waiting : List Nat := []
  /-- The tasks of the cycles that hold a permit. -/
  running : List Nat := []

namespace Runner

/-- The largest number of permits. -/
def permitLimit : Nat := 0x1fffffffffffffff

/-- The number of permits of a scheduler; there is at least one. -/
def permits (s : SchedulerSettings) : Nat := max s.maxConcurrency 1

/-- A runner without schedules; `none` if it would have more permits than there can be. -/
def new? (s : SchedulerSettings) : Option Runner :=
  if permits s ≤ permitLimit then
    some
      { interval := max s.interval 1, policy := s.overlap, capacity := permits s,
        available := permits s }
  else none

/-- Changes a task. -/
def modifyTask (id : Nat) (f : Task → Task) (r : Runner) : Runner :=
  { r with tasks := r.tasks.modify id f }

/-- Tells a task to end. -/
def abort (id : Nat) (r : Runner) : Runner :=
  r.modifyTask id fun t => if t.exit.isNone then { t with aborted := true } else t

/-- Tells the task of a registry entry to end, if there is an entry. -/
def abortEntry (r : Runner) : Option Nat → Runner
  | some id => r.abort id
  | none => r

/-- Makes a schedule, in place of the one that the agent has; answers its number. -/
def schedule (agent : String) (job now : Nat) (r : Runner) : Nat × Runner :=
  let id := r.tasks.length
  let previous := r.registry[agent]?
  let r := { r with
    tasks := r.tasks ++ [({ agent, job, due := now } : Task)]
    registry := r.registry.insert agent id }
  (id, r.abortEntry previous)

/-- Ends the schedule of an agent; answers whether there was one. -/
def unschedule (agent : String) (r : Runner) : Bool × Runner :=
  let entry := r.registry[agent]?
  let r : Runner := { r with registry := r.registry.erase agent }
  (entry.isSome, r.abortEntry entry)

/-- Ends every schedule. -/
def shutdown (r : Runner) : Runner :=
  r.registry.toList.foldl (fun r entry => r.abort entry.2) { r with registry := ∅ }

/-- The agents that have a schedule, in order. -/
def types (r : Runner) : List String := r.registry.keys

/-- Why a task would end if it came to run now. -/
def Task.ending? (t : Task) : Option Exit :=
  if t.exit.isSome then none
  else if t.aborted then some .cancelled
  else t.failures.head?.map .callbackFailed

/-- A task that has a reason to end does so. -/
def exitTask (id : Nat) (r : Runner) : Runner :=
  match r.tasks[id]? with
  | none => r
  | some t =>
    match Task.ending? t with
    | none => r
    | some exit =>
      let r := r.modifyTask id fun t => { t with exit := some exit }
      if r.registry[t.agent]? = some id then { r with registry := r.registry.erase t.agent } else r

/-- A task fires if its moment has come: a new cycle waits, unless the policy forbids it. -/
def fire (id now : Nat) (r : Runner) : Runner :=
  match r.tasks[id]? with
  | none => r
  | some t =>
    if t.isLive ∧ t.due ≤ now then
      match r.policy with
      | .allow =>
        { r.modifyTask id fun t => { t with due := now + r.interval } with
          waiting := r.waiting ++ [id] }
      | .skip =>
        if t.busy then r.modifyTask id fun t => { t with due := now + r.interval }
        else
          { r.modifyTask id fun t => { t with due := now + r.interval, busy := true } with
            waiting := r.waiting ++ [id] }
    else r

/-- The cycle that has waited longest gets a free permit; answers its task. -/
def grant? (r : Runner) : Option (Nat × Runner) :=
  match r.waiting with
  | [] => none
  | id :: rest =>
    if 0 < r.available then
      some (id, { r with waiting := rest, available := r.available - 1, running := id :: r.running })
    else none

/-- A cycle of a task ends, with a failure if that could not be reported: the permit is free again,
and the task may fire again. -/
def finish (id : Nat) (failure : Option CallbackError) (r : Runner) : Runner :=
  if id ∈ r.running then
    { r.modifyTask id fun t => { t with busy := false, failures := t.failures ++ failure.toList } with
      available := r.available + 1, running := r.running.erase id }
  else r

end Runner

end Schedule

end EntityCache
