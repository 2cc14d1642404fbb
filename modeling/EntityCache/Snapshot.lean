import EntityCache.Entity.Basic

/-!
# Snapshots

A `Snapshot` is what one load of an agent yields: items to merge and ids to evict, by type.  A
type is part of a snapshot once it has been given a list, even an empty one.
-/

namespace EntityCache

/-- Items to merge and ids to evict, by type. -/
structure Snapshot where
  items : Std.ExtTreeMap String (List Item) := ∅
  evictions : Std.ExtTreeMap String (List String) := ∅

namespace Snapshot

/-- Adds items of a type after those that are there. -/
def withItems (s : Snapshot) (type : String) (items : List Item) : Snapshot :=
  { s with items := s.items.insert type (s.items.getD type [] ++ items) }

/-- Adds ids of a type to evict after those that are there. -/
def withEvictions (s : Snapshot) (type : String) (ids : List String) : Snapshot :=
  { s with evictions := s.evictions.insert type (s.evictions.getD type [] ++ ids) }

/-- No item to merge and no id to evict. -/
def isEmpty (s : Snapshot) : Bool :=
  s.items.toList.all (·.2.isEmpty) && s.evictions.toList.all (·.2.isEmpty)

/-- The types of a snapshot, in the order of their names. -/
def types (s : Snapshot) : List String :=
  (s.evictions.foldl (fun all type _ => all.insert type)
    (s.items.foldl (fun all type _ => all.insert type) (∅ : Names))).toList

end Snapshot

end EntityCache
