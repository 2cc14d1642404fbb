import EntityCache.Cache.Contract
import EntityCache.Snapshot

/-!
# Collecting into a cache

`collect` is one execution of a caching agent: load a snapshot, then write it to a cache type by
type in the order of their names, the items of a type before its evictions.  The first failure ends
it, and is reported below a line that says what was being done.
-/

namespace EntityCache

variable {m : Type → Type} [Monad m]

/-- What an agent has to offer when it is executed: nothing, if it is no caching agent, or the
result of its load. -/
inductive Load where
  | unsupported
  | loaded (result : Except ErrorChain Snapshot)

namespace Collection

/-- A failing operation, reported below a line of context. -/
def within {α : Type} (context : String) (x : ExceptT DomainError m α) : ExceptT ErrorChain m α :=
  ExceptT.mk do
    match ← x.run with
    | .ok value => pure (.ok value)
    | .error e => pure (.error [context, e.message])

/-- Writes one type of a snapshot. -/
def writeType (w : Writer m) (agent : String) (s : Snapshot) (type : String) :
    ExceptT ErrorChain m Unit := do
  match s.items[type]? with
  | some items =>
    within ("Failed to merge " ++ type ++ " for agent " ++ agent) (w.mergeAll type items)
  | none => pure ()
  match s.evictions[type]? with
  | some ids =>
    within ("Failed to evict " ++ type ++ " for agent " ++ agent) (w.evictAll type ids)
  | none => pure ()

/-- Writes types of a snapshot in order. -/
def writeTypes (w : Writer m) (agent : String) (s : Snapshot) :
    List String → ExceptT ErrorChain m Unit
  | [] => pure ()
  | type :: rest => do
    writeType w agent s type
    writeTypes w agent s rest

/-- Writes a snapshot. -/
def write (w : Writer m) (agent : String) (s : Snapshot) : ExceptT ErrorChain m Unit :=
  writeTypes w agent s s.types

end Collection

/-- One execution of an agent, writing to one cache. -/
def collect (w : Writer m) (agent : String) : Load → ExceptT ErrorChain m Unit
  | .unsupported => throw ["Agent " ++ agent ++ " is not a caching agent"]
  | .loaded (.error causes) => throw (("Failed to load data for agent " ++ agent) :: causes)
  | .loaded (.ok snapshot) => Collection.write w agent snapshot

end EntityCache
