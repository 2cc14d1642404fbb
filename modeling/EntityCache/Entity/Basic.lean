import EntityCache.Json.Basic
import Std.Data.ExtTreeMap
import Std.Data.ExtTreeSet

/-!
# Entities

An `Entity` is one record of a type namespace: attributes by name, and named relationships to ids
of other types.  Maps and sets are compared by their contents, and are listed in the order of
their keys, which for strings is the order of their bytes.

An `Item` is an entity as it is handed to a cache.  The maps of an entity are hash maps, and a hash
map lists what it holds in an order that belongs to the map and not to its contents.  This order is
part of an item, since it shows in what is written.

Three ways to put two entities of one id together are used: `Entity.upsert` is what a merge does to
a stored entity, `Entity.overlay` is how a later source of a composite cache adds to an earlier one.
-/

namespace EntityCache

/-- Attribute values by name. -/
abbrev Attributes := Std.ExtTreeMap String Json

/-- A set of ids, or of names. -/
abbrev Names := Std.ExtTreeSet String

/-- Related ids by the name of the relationship. -/
abbrev Relationships := Std.ExtTreeMap String Names

/-- A record with an id that is unique within its type. -/
structure Entity where
  id : String
  attributes : Attributes := ∅
  relationships : Relationships := ∅

namespace Entity

instance : DecidableEq Entity := fun a b =>
  decidable_of_iff (a.id = b.id ∧ a.attributes = b.attributes ∧ a.relationships = b.relationships)
    (by cases a; cases b; simp)

/-- Sets one attribute. -/
def withAttribute (e : Entity) (name : String) (value : Json) : Entity :=
  { e with attributes := e.attributes.insert name value }

/-- Replaces one relationship; repeated ids collapse. -/
def withRelationship (e : Entity) (name : String) (ids : List String) : Entity :=
  { e with relationships := e.relationships.insert name (Std.ExtTreeSet.ofList ids) }

/-- The ids related through `name`, if the relationship is there. -/
def related? (e : Entity) (name : String) : Option Names := e.relationships[name]?

/-- An entity with neither attributes nor relationships writes nothing. -/
def isBlank (e : Entity) : Bool := e.attributes.isEmpty && e.relationships.isEmpty

/-- An entity is read as present once it has attributes. -/
def isVisible (e : Entity) : Bool := !e.attributes.isEmpty

/-- Every entry of `later` put over those of `earlier`. -/
def putAll {β : Type} (earlier later : Std.ExtTreeMap String β) : Std.ExtTreeMap String β :=
  later.foldl (fun all name value => all.insert name value) earlier

/-- What merging `item` makes of a stored entity: attributes are replaced as a whole unless the
item has none, each relationship of the item is replaced, and the others are kept. -/
def upsert (stored item : Entity) : Entity :=
  { stored with
    attributes := if item.attributes.isEmpty then stored.attributes else item.attributes
    relationships := putAll stored.relationships item.relationships }

/-- Two sets together. -/
def union (a b : Names) : Names := b.foldl (fun all id => all.insert id) a

/-- What a later source adds to an entity: its attributes win one by one, its relationships are
added to those that are there. -/
def overlay (earlier later : Entity) : Entity :=
  { earlier with
    attributes := putAll earlier.attributes later.attributes
    relationships := later.relationships.foldl
      (fun all name ids => all.insert name (union (all.getD name ∅) ids)) earlier.relationships }

end Entity

/-- An entity together with the orders in which its maps list their contents.  Two items may hold
the same entity and list it differently. -/
structure Item extends Entity where
  fields : List (String × Json)
  links : List (String × Names)
  fields_perm : fields.Perm attributes.toList
  links_perm : links.Perm relationships.toList

instance : DecidableEq Item := fun a b =>
  decidable_of_iff (a.toEntity = b.toEntity ∧ a.fields = b.fields ∧ a.links = b.links)
    (by cases a; cases b; simp)

/-- An entity whose maps list their contents in the order of the names. -/
def Entity.listed (e : Entity) : Item where
  toEntity := e
  fields := e.attributes.toList
  links := e.relationships.toList
  fields_perm := .refl _
  links_perm := .refl _

@[simp] theorem Entity.toEntity_listed (e : Entity) : e.listed.toEntity = e := rfl

/-- The distinct strings of a list, each where it occurs first. -/
def distinct (ids : List String) : List String :=
  go ∅ ids
where
  /-- The strings that are not among those seen. -/
  go (seen : Names) : List String → List String
    | [] => []
    | id :: rest => if id ∈ seen then go seen rest else id :: go (seen.insert id) rest

end EntityCache
