import EntityCache.Entity.Basic
import EntityCache.Glob

/-!
# What a cache offers

A `Reader` looks entities up by type and id, a `Writer` merges items and evicts ids.  Both work in
a monad `m` of effects, such as store calls or a changing state, and fail with a `DomainError`.
Absence is no failure: an id that is not there is left out of a list.

Reading one entity, merging one item and evicting one id are the operations on lists of one.
-/

namespace EntityCache

/-- The read operations of a cache. -/
structure Reader (m : Type → Type) where
  /-- The entities with these ids that are there, each once, in the order of the ids. -/
  getAllByIds : String → List String → ExceptT DomainError m (List Entity)
  /-- All entities of a type. -/
  getAll : String → ExceptT DomainError m (List Entity)
  /-- The ids of all entities of a type. -/
  getIdentifiers : String → ExceptT DomainError m (List String)
  /-- The ids of a type that a glob takes. -/
  filterIdentifiers : String → String → ExceptT DomainError m (List String)

/-- The write operations of a cache. -/
structure Writer (m : Type → Type) where
  /-- Merges items of a type, in order. -/
  mergeAll : String → List Item → ExceptT DomainError m Unit
  /-- Evicts ids of a type. -/
  evictAll : String → List String → ExceptT DomainError m Unit

namespace Reader

variable {m n : Type → Type} [Monad m] [Monad n]

/-- Filters the ids of a type by a glob, which is compiled before the ids are read. -/
def filterBy (identifiers : String → ExceptT DomainError m (List String)) (type glob : String) :
    ExceptT DomainError m (List String) := do
  let g ← ExceptT.mk (pure (Glob.compile glob))
  return g.filter (← identifiers type)

/-- One entity: the last of those with its id. -/
def get (r : Reader m) (type id : String) : ExceptT DomainError m (Option Entity) := do
  return (← r.getAllByIds type [id]).getLast?

/-- The same reader with its effects carried into another monad. -/
def lift (f : {α : Type} → m α → n α) (r : Reader m) : Reader n where
  getAllByIds type ids := ExceptT.mk (f (r.getAllByIds type ids).run)
  getAll type := ExceptT.mk (f (r.getAll type).run)
  getIdentifiers type := ExceptT.mk (f (r.getIdentifiers type).run)
  filterIdentifiers type glob := ExceptT.mk (f (r.filterIdentifiers type glob).run)

end Reader

namespace Writer

variable {m n : Type → Type} [Monad m] [Monad n]

/-- Merges one item. -/
def merge (w : Writer m) (type : String) (item : Item) : ExceptT DomainError m Unit :=
  w.mergeAll type [item]

/-- Evicts one id. -/
def evict (w : Writer m) (type id : String) : ExceptT DomainError m Unit := w.evictAll type [id]

/-- The same writer with its effects carried into another monad. -/
def lift (f : {α : Type} → m α → n α) (w : Writer m) : Writer n where
  mergeAll type items := ExceptT.mk (f (w.mergeAll type items).run)
  evictAll type ids := ExceptT.mk (f (w.evictAll type ids).run)

end Writer

end EntityCache
