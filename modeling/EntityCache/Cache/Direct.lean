import EntityCache.Cache.Contract

/-!
# A cache in memory

`DirectCache` keeps entities as they are, by type and id.  It takes any type name, never fails, and
follows the rules of visibility of a key-value cache: an item with neither attributes nor
relationships writes nothing, and an id with relationships alone is listed but reads as absent.
-/

namespace EntityCache

/-- Entities by id. -/
abbrev Entities := Std.ExtTreeMap String Entity

/-- Entities by type and id. -/
structure DirectCache where
  types : Std.ExtTreeMap String Entities := ∅

namespace DirectCache

variable (c : DirectCache)

/-- The entities of a type. -/
def entities (type : String) : Entities := c.types.getD type ∅

/-- The entities of a type with these ids. -/
def getAllByIds (type : String) (ids : List String) : List Entity :=
  ((distinct ids).filterMap ((c.entities type)[·]?)).filter (·.isVisible)

/-- All entities of a type. -/
def getAll (type : String) : List Entity :=
  ((c.entities type).toList.map (·.2)).filter (·.isVisible)

/-- The ids of a type. -/
def getIdentifiers (type : String) : List String := (c.entities type).keys

/-- Merges one item into the entities of its type. -/
def mergeItem (stored : Entities) (item : Item) : Entities :=
  if item.isBlank then stored
  else
    match stored[item.id]? with
    | some existing => stored.insert item.id (existing.upsert item.toEntity)
    | none => stored.insert item.id item.toEntity

/-- Merges items of a type. -/
def mergeAll (type : String) (items : List Item) : DirectCache :=
  if items.isEmpty then c
  else { types := c.types.insert type (items.foldl mergeItem (c.entities type)) }

/-- Evicts ids of a type. -/
def evictAll (type : String) (ids : List String) : DirectCache :=
  match c.types[type]? with
  | none => c
  | some stored => { types := c.types.insert type (ids.foldl (·.erase ·) stored) }

/-- The read operations, over a state that holds the cache. -/
def reader : Reader (StateM DirectCache) where
  getAllByIds type ids := ExceptT.mk fun c => (.ok (c.getAllByIds type ids), c)
  getAll type := ExceptT.mk fun c => (.ok (c.getAll type), c)
  getIdentifiers type := ExceptT.mk fun c => (.ok (c.getIdentifiers type), c)
  filterIdentifiers :=
    Reader.filterBy fun type => ExceptT.mk fun c => (.ok (c.getIdentifiers type), c)

/-- The write operations, over a state that holds the cache. -/
def writer : Writer (StateM DirectCache) where
  mergeAll type items := ExceptT.mk fun c => (.ok (), c.mergeAll type items)
  evictAll type ids := ExceptT.mk fun c => (.ok (), c.evictAll type ids)

end DirectCache

end EntityCache
