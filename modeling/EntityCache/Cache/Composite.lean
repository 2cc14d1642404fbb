import EntityCache.Cache.Contract

/-!
# A view over several caches

`Reader.composite` asks its sources in order, gives up at the first failure, and merges what they
answer: ids keep the order in which they are first seen, a later source's attributes win one by
one, and relationships are united.
-/

namespace EntityCache

namespace Reader

/-- One more entity: laid over the one of its id, if that is known already. -/
def gather (merged : Std.ExtTreeMap String Entity) (item : Entity) : Std.ExtTreeMap String Entity :=
  match merged[item.id]? with
  | some existing => merged.insert item.id (existing.overlay item)
  | none => merged.insert item.id item

/-- The entities of all sources, one per id, in the order in which the ids are first seen. -/
def mergeSources (perSource : List (List Entity)) : List Entity :=
  let items := perSource.flatten
  let merged := items.foldl gather ∅
  (distinct (items.map (·.id))).filterMap (merged[·]?)

variable {m : Type → Type} [Monad m]

/-- Asks every source in order. -/
def askAll {α : Type} (ask : Reader m → ExceptT DomainError m α) :
    List (Reader m) → ExceptT DomainError m (List α)
  | [] => pure []
  | source :: rest => do
    let answer ← ask source
    return answer :: (← askAll ask rest)

/-- The view over `sources`, in order of precedence. -/
def composite (sources : List (Reader m)) : Reader m where
  getAllByIds type ids := do
    if ids.isEmpty then return []
    return mergeSources (← askAll (·.getAllByIds type ids) sources)
  getAll type := do
    return mergeSources (← askAll (·.getAll type) sources)
  getIdentifiers type := do
    return distinct (← askAll (·.getIdentifiers type) sources).flatten
  filterIdentifiers type glob := do
    return distinct (← askAll (·.filterIdentifiers type glob) sources).flatten

end Reader

end EntityCache
