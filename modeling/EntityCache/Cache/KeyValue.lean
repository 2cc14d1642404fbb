import EntityCache.Cache.Contract
import EntityCache.Entity.Encoding
import EntityCache.Store.Request

/-!
# A cache on a key-value store

`KeyValueCache` keeps entities as strings and sets of a store.  For the prefix `P`, the type `T`,
the id `I` and the relationship `R` its keys are

* `P:T:attributes:I`, the attributes of an entity,
* `P:T:relationships:I:R`, the ids of one relationship,
* `P:T:relationships`, the set of all relationship names ever merged for the type,
* `P:T:members`, the set of all ids merged for the type.

The set of names is an index: it tells readers and evictions which relationship keys may be there.
An operation is a program of store calls.  A merge writes the index first, then the strings, and
the members last, so no id is listed before its keys are there.
-/

namespace EntityCache

/-- A cache under a key prefix. -/
structure KeyValueCache where
  keyPrefix : String
deriving DecidableEq, Repr

namespace KeyValueCache

/-- An operation: store calls that may end in a failure. -/
abbrev Action (α : Type) := ExceptT DomainError Store.Calls α

/-- One store call. -/
def call (r : Store.Request) : Action r.Answer :=
  ExceptT.mk (.ask r fun reply => .done (reply.mapError DomainError.ofStoreError))

variable (c : KeyValueCache)

/-! ## Keys -/

/-- The key of the attributes of an entity. -/
def attributesKey (type id : String) : String := c.keyPrefix ++ ":" ++ type ++ ":attributes:" ++ id

/-- The key of one relationship of an entity. -/
def relationshipKey (type id name : String) : String :=
  c.keyPrefix ++ ":" ++ type ++ ":relationships:" ++ id ++ ":" ++ name

/-- The key of the index of relationship names of a type. -/
def indexKey (type : String) : String := c.keyPrefix ++ ":" ++ type ++ ":relationships"

/-- The key of the members of a type. -/
def membersKey (type : String) : String := c.keyPrefix ++ ":" ++ type ++ ":members"

/-- A type may be any text that is not empty and has no colon. -/
def ValidType (type : String) : Prop := type ≠ "" ∧ ':' ∉ type.toList

instance (type : String) : Decidable (ValidType type) := inferInstanceAs (Decidable (_ ∧ _))

/-- Refuses a type that is not valid. -/
def validate (type : String) : Action Unit :=
  if ValidType type then pure () else throw (.invalidType type)

/-! ## Reading -/

/-- The keys of an entity, attributes first. -/
def entityKeys (known : List String) (type id : String) : List String :=
  c.attributesKey type id :: known.map (c.relationshipKey type id)

/-- The refusal of a stored string. -/
def unreadable : DomainError := .serialization "stored value cannot be read"

/-- The relationships of an entity from their slots; an empty slot has none. -/
def decodeRelationships : List String → List (Option String) → Except DomainError (List (String × Names))
  | name :: known, some text :: slots =>
    match Names.decode? text with
    | none => .error unreadable
    | some ids => (decodeRelationships known slots).map ((name, ids) :: ·)
  | _ :: known, none :: slots => decodeRelationships known slots
  | _, _ => .ok []

/-- The entity of an id from its slots; without attributes it is absent. -/
def decodeEntity (known : List String) (id : String) :
    List (Option String) → Except DomainError (Option Entity)
  | some text :: slots =>
    match Attributes.decode? text with
    | none => .error unreadable
    | some attributes =>
      (decodeRelationships known slots).map fun named =>
        some ⟨id, attributes, Std.ExtTreeMap.ofList named⟩
  | _ => .ok none

/-- The entities of several ids, each from its own run of slots. -/
def decodeEntities (known : List String) :
    List String → List (Option String) → Except DomainError (List Entity)
  | [], _ => .ok []
  | id :: ids, slots =>
    match decodeEntity known id (slots.take (known.length + 1)) with
    | .error e => .error e
    | .ok none => decodeEntities known ids (slots.drop (known.length + 1))
    | .ok (some entity) =>
      (decodeEntities known ids (slots.drop (known.length + 1))).map (entity :: ·)

/-- The failure of a store that answers with the wrong number of slots. -/
def slotMismatch (slots keys : Nat) : DomainError :=
  .storeUnavailable
    ("mget returned " ++ toString slots ++ " values for " ++ toString keys ++ " keys")

/-- The entities of a type with these ids. -/
def getAllByIds (type : String) (ids : List String) : Action (List Entity) := do
  validate type
  let ids := distinct ids
  if ids.isEmpty then return []
  let known ← call (.smembers (c.indexKey type))
  let keys := ids.flatMap (c.entityKeys known type)
  let slots ← call (.mget keys)
  if slots.length ≠ keys.length then throw (slotMismatch slots.length keys.length)
  ExceptT.mk (pure (decodeEntities known ids slots))

/-- The ids of a type. -/
def getIdentifiers (type : String) : Action (List String) := do
  validate type
  call (.smembers (c.membersKey type))

/-- All entities of a type. -/
def getAll (type : String) : Action (List Entity) := do
  c.getAllByIds type (← c.getIdentifiers type)

/-! ## Writing -/

/-- The entries that an item writes: its attributes unless there are none, and each relationship, as
its maps list them. -/
def entries (type : String) (item : Item) : List (String × String) :=
  (if item.attributes.isEmpty then []
    else [(c.attributesKey type item.id, Attributes.encode item.fields)]) ++
    item.links.map fun named =>
      (c.relationshipKey type item.id named.1, Names.encode named.2)

/-- The names of all relationships of some items, in order. -/
def relationshipNames (items : List Item) : List String :=
  (items.foldl
    (fun all item => item.relationships.foldl (fun all name _ => all.insert name) all)
    (∅ : Names)).toList

/-- Merges items of a type. -/
def mergeAll (type : String) (items : List Item) : Action Unit := do
  validate type
  let written := items.filter (!·.isBlank)
  if written.isEmpty then return ()
  let names := relationshipNames items
  if !names.isEmpty then
    let _ ← call (.sadd (c.indexKey type) names)
  call (.mset (items.flatMap (c.entries type)))
  let _ ← call (.sadd (c.membersKey type) (written.map (·.id)))

/-- Evicts ids of a type. -/
def evictAll (type : String) (ids : List String) : Action Unit := do
  validate type
  let ids := distinct ids
  if ids.isEmpty then return ()
  let known ← call (.smembers (c.indexKey type))
  let keys := ids.flatMap fun id =>
    known.map (c.relationshipKey type id) ++ [c.attributesKey type id]
  let _ ← call (.del keys)
  let _ ← call (.srem (c.membersKey type) ids)

/-- The cache as a reader. -/
def reader : Reader Store.Calls where
  getAllByIds := c.getAllByIds
  getAll := c.getAll
  getIdentifiers := c.getIdentifiers
  filterIdentifiers := Reader.filterBy c.getIdentifiers

/-- The cache as a writer. -/
def writer : Writer Store.Calls where
  mergeAll := c.mergeAll
  evictAll := c.evictAll

end KeyValueCache

end EntityCache
