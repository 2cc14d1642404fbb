import EntityCache.Entity.Basic
import EntityCache.Json.Printer
import EntityCache.Json.Reader

/-!
# Entities as JSON text

A store keeps the attributes of an entity as the text of an object and each set of related ids as
the text of an array.  The fields of the object stand in the order in which the map lists them, the
ids of a set in the order of their bytes.  Reading takes any text of the grammar: the last of
several fields of a name is kept, repeated ids collapse, and a text that is no object (or no array
of strings) is refused.

`Entity.ofDocument?` reads a whole entity: an object with the fields `id`, `attributes` and
`relationships`, of which only the first is required, or an array of them in this order.
-/

namespace EntityCache

namespace Attributes

/-- The stored text of an attribute map that lists these fields. -/
def encode (fields : List (String × Json)) : String := (Json.object fields).render

/-- The attribute map that a document holds, of at most `levels` levels. -/
def ofDocument? (levels : Nat) (d : Document) : Option Attributes :=
  match d.value? levels with
  | some (.object fields) => some (Std.ExtTreeMap.ofList fields)
  | _ => none

/-- The attribute map of a stored text. -/
def decode? (text : String) : Option Attributes :=
  (Document.read? text).bind (ofDocument? Document.nestingLimit)

end Attributes

namespace Names

/-- The stored text of a set of ids. -/
def encode (ids : Names) : String := (Json.array (ids.toList.map .string)).render

/-- The strings that a list of documents holds. -/
def stringsOf? : List Document → Option (List String)
  | [] => some []
  | .string (some s) :: rest => (stringsOf? rest).map (s :: ·)
  | _ :: _ => none

/-- The set of ids that a document holds. -/
def ofDocument? : Document → Option Names
  | .array items => (stringsOf? items).map fun ids => Std.ExtTreeSet.ofList ids
  | _ => none

/-- The set of ids of a stored text. -/
def decode? (text : String) : Option Names := (Document.read? text).bind ofDocument?

end Names

namespace Relationships

/-- The relationships that a list of fields holds; the last field of a name is kept. -/
def ofFields? : List (Option String × Document) → Option (List (String × Names))
  | [] => some []
  | (some name, d) :: rest =>
    match Names.ofDocument? d with
    | some ids => (ofFields? rest).map ((name, ids) :: ·)
    | none => none
  | (none, _) :: _ => none

/-- The relationships that a document holds. -/
def ofDocument? : Document → Option Relationships
  | .object fields => (ofFields? fields).map fun named => Std.ExtTreeMap.ofList named
  | _ => none

end Relationships

namespace Entity

/-- The levels of nesting that are left for the attributes of an entity. -/
def attributeLevels : Nat := Document.nestingLimit - 1

/-- The documents of the fields of an entity, as far as they have been met. -/
structure Parts where
  id : Option Document := none
  attributes : Option Document := none
  relationships : Option Document := none

/-- Sorts fields by name: a repeated field of an entity is refused, any other field is skipped. -/
def collect? (parts : Parts) : List (Option String × Document) → Option Parts
  | [] => some parts
  | (none, _) :: _ => none
  | (some name, d) :: rest =>
    if name = "id" then
      if parts.id.isSome then none else collect? { parts with id := some d } rest
    else if name = "attributes" then
      if parts.attributes.isSome then none else collect? { parts with attributes := some d } rest
    else if name = "relationships" then
      if parts.relationships.isSome then none else collect? { parts with relationships := some d } rest
    else collect? parts rest

/-- The entity of its parts; attributes and relationships may be missing. -/
def ofParts? (parts : Parts) : Option Entity :=
  match parts.id with
  | some (.string (some id)) =>
    match (parts.attributes.map (Attributes.ofDocument? attributeLevels)).getD (some ∅),
        (parts.relationships.map Relationships.ofDocument?).getD (some ∅) with
    | some attributes, some relationships => some ⟨id, attributes, relationships⟩
    | _, _ => none
  | _ => none

/-- The entity that a document holds. -/
def ofDocument? : Document → Option Entity
  | .object fields => (collect? {} fields).bind ofParts?
  | .array [id] => ofParts? { id }
  | .array [id, attributes] => ofParts? { id, attributes }
  | .array [id, attributes, relationships] => ofParts? { id, attributes, relationships }
  | _ => none

/-- The entity that a text holds. -/
def read? (text : String) : Option Entity := (Document.read? text).bind ofDocument?

end Entity

end EntityCache
