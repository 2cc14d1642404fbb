import EntityCache.Cache.Direct
import EntityCache.Proofs.Entity.Maps

/-!
# What writes leave in a direct cache

A merge lays its items over the entities of their type one after another (`getElem?_mergeItem`), an
eviction takes ids away, and both leave every other type alone.
-/

namespace EntityCache

namespace DirectCache

variable {c : DirectCache} {type type' id : String} {stored : Entities}

/-! ## Merging -/

/-- What an item that is not blank makes of the entity of its id. -/
def laidOver (old : Option Entity) (item : Item) : Entity :=
  match old with
  | some existing => existing.upsert item.toEntity
  | none => item.toEntity

/-- The attributes of an item replace those that are there, unless it has none. -/
theorem attributes_laidOver (old : Option Entity) (item : Item) :
    (laidOver old item).attributes = if item.attributes.isEmpty then
      (old.map (·.attributes)).getD ∅ else item.attributes := by
  cases old with
  | some existing => rfl
  | none =>
    simp only [laidOver, Option.map_none, Option.getD_none]
    split
    case isTrue h => exact Std.ExtTreeMap.isEmpty_iff.1 h
    case isFalse => rfl

/-- Each relationship of an item replaces the one that is there. -/
theorem relationships_laidOver (old : Option Entity) (item : Item) (name : String) :
    (laidOver old item).relationships[name]? =
      item.relationships[name]?.or (old.bind (·.relationships[name]?)) := by
  cases old with
  | some existing => exact Entity.getElem?_putAll _ _
  | none => simp [laidOver]

/-- A relationship that is there is one of the item, or was there before. -/
theorem mem_relationships_laidOver (old : Option Entity) (item : Item) (name : String) :
    name ∈ (laidOver old item).relationships ↔
      name ∈ item.relationships ∨ ∃ e ∈ old, name ∈ e.relationships := by
  rw [← Std.ExtTreeMap.isSome_getElem?_iff_mem, relationships_laidOver, Option.isSome_or,
    Bool.or_eq_true, Std.ExtTreeMap.isSome_getElem?_iff_mem]
  cases old with
  | none => simp
  | some e => simp

/-- An item with something to say is laid over what is stored. -/
theorem mergeItem_of_not_blank (stored : Entities) {item : Item} (h : item.isBlank = false) :
    mergeItem stored item = stored.insert item.id (laidOver stored[item.id]? item) := by
  rw [mergeItem, if_neg (by simp [h])]
  cases stored[item.id]? <;> rfl

/-- Only the entity of the item's id changes, and not for a blank item. -/
theorem getElem?_mergeItem (stored : Entities) (item : Item) (id : String) :
    (mergeItem stored item)[id]? = if item.isBlank = false ∧ item.id = id then
      some (laidOver stored[id]? item) else stored[id]? := by
  cases hblank : item.isBlank with
  | true => simp [mergeItem, hblank]
  | false =>
    simp only [mergeItem_of_not_blank stored hblank, Std.ExtTreeMap.getElem?_insert,
      compare_eq_iff_eq, true_and]
    split
    case isTrue heq => rw [heq]
    case isFalse => rfl

/-- What an item makes of the entity of an id, if there is one. -/
def upsertItem (id : String) (old : Option Entity) (item : Item) : Option Entity :=
  if item.isBlank = false ∧ item.id = id then some (laidOver old item) else old

/-- The entity of an id after a merge is that of before with the items of the id laid over it. -/
theorem getElem?_foldl_mergeItem (stored : Entities) (items : List Item) (id : String) :
    (items.foldl mergeItem stored)[id]? = items.foldl (upsertItem id) stored[id]? := by
  induction items generalizing stored with
  | nil => rfl
  | cons item items ih => rw [List.foldl_cons, List.foldl_cons, ih, getElem?_mergeItem, upsertItem]

/-- Items of other ids make nothing of the entity of an id. -/
theorem foldl_upsertItem_of_ne {items : List Item} {id : String}
    (h : ∀ item ∈ items, item.id ≠ id) (old : Option Entity) :
    items.foldl (upsertItem id) old = old := by
  induction items with
  | nil => rfl
  | cons item items ih =>
    obtain ⟨hitem, hitems⟩ := List.forall_mem_cons.1 h
    rw [List.foldl_cons, upsertItem, if_neg fun heq => hitem heq.2, ih hitems]

/-- What holds of the entity of an id, and of an item of the id laid over such an entity, holds
after a merge. -/
theorem forall_foldl_upsertItem {P : Entity → Prop} {items : List Item} {id : String}
    {old : Option Entity} (hold : ∀ e ∈ old, P e)
    (hitems : ∀ item ∈ items, item.id = id → ∀ old : Option Entity, (∀ e ∈ old, P e) →
      P (laidOver old item)) : ∀ e ∈ items.foldl (upsertItem id) old, P e := by
  induction items generalizing old with
  | nil => exact hold
  | cons item items ih =>
    obtain ⟨hitem, hitems⟩ := List.forall_mem_cons.1 hitems
    refine ih ?_ hitems
    rw [upsertItem]
    split
    case isTrue hid =>
      rintro e ⟨⟩
      exact hitem hid.2 old hold
    case isFalse => exact hold

/-- An item that is not blank adds its id. -/
theorem mem_mergeItem (stored : Entities) (item : Item) (id : String) :
    id ∈ mergeItem stored item ↔ id ∈ stored ∨ (item.isBlank = false ∧ item.id = id) := by
  rw [← Std.ExtTreeMap.isSome_getElem?_iff_mem, getElem?_mergeItem,
    ← Std.ExtTreeMap.isSome_getElem?_iff_mem]
  split
  case isTrue h => simp [h]
  case isFalse h => simp [h]

/-- The ids after a merge are those before it and those of the items that are not blank. -/
theorem mem_foldl_mergeItem (stored : Entities) (items : List Item) (id : String) :
    id ∈ items.foldl mergeItem stored ↔
      id ∈ stored ∨ ∃ item ∈ items, item.isBlank = false ∧ item.id = id := by
  induction items generalizing stored with
  | nil => simp
  | cons item items ih =>
    rw [List.foldl_cons, ih, mem_mergeItem, List.exists_mem_cons_iff, or_assoc]

/-- What holds of every entity, and of an item laid over such an entity, holds after a merge. -/
theorem forall_foldl_mergeItem {P : String → Entity → Prop} {stored : Entities}
    {items : List Item} (hstored : ∀ (id : String) e, stored[id]? = some e → P id e)
    (hitems : ∀ item ∈ items, ∀ old : Option Entity, (∀ e ∈ old, P item.id e) →
      P item.id (laidOver old item)) (id : String) (e : Entity)
    (h : (items.foldl mergeItem stored)[id]? = some e) : P id e := by
  rw [getElem?_foldl_mergeItem] at h
  refine forall_foldl_upsertItem (hstored id) (fun item hitem hid old hold => ?_) e h
  subst hid
  exact hitems item hitem old hold

/-- The entities of the type are merged one item after another; other types stay as they are. -/
theorem entities_mergeAll (c : DirectCache) (type : String) (items : List Item) :
    (c.mergeAll type items).entities type' =
      if type = type' then items.foldl mergeItem (c.entities type) else c.entities type' := by
  unfold mergeAll
  cases items with
  | nil =>
    simp only [List.isEmpty_nil, if_true, List.foldl_nil]
    split
    case isTrue h => rw [h]
    case isFalse => rfl
  | cons item items =>
    simp only [List.isEmpty_cons, Bool.false_eq_true, if_false, entities,
      Std.ExtTreeMap.getD_insert, compare_eq_iff_eq]

/-! ## Evicting -/

/-- What is left under an id after the ids of a list have been erased. -/
theorem getElem?_foldl_erase (stored : Entities) (ids : List String) (id : String) :
    (ids.foldl (·.erase ·) stored)[id]? = if id ∈ ids then none else stored[id]? := by
  induction ids generalizing stored with
  | nil => simp
  | cons other ids ih =>
    simp only [List.foldl_cons, ih, Std.ExtTreeMap.getElem?_erase, compare_eq_iff_eq]
    by_cases hid : id = other
    · simp [hid]
    · simp [hid, Ne.symm hid]

/-- An eviction takes the ids from its type, and leaves other types as they are. -/
theorem getElem?_entities_evictAll (c : DirectCache) (type : String) (ids : List String) :
    ((c.evictAll type ids).entities type')[id]? =
      if type = type' ∧ id ∈ ids then none else (c.entities type')[id]? := by
  unfold evictAll
  split
  case h_1 hnone =>
    -- a type that is not there has no entities to take away
    split
    case isTrue h =>
      obtain ⟨rfl, -⟩ := h
      simp [entities, Std.ExtTreeMap.getD_eq_getD_getElem?, hnone]
    case isFalse => rfl
  case h_2 stored hstored =>
    simp only [entities, Std.ExtTreeMap.getD_insert, compare_eq_iff_eq]
    by_cases htype : type = type'
    · subst htype
      simp only [if_true, true_and, getElem?_foldl_erase, Std.ExtTreeMap.getD_eq_getD_getElem?,
        hstored, Option.getD_some]
    · simp [htype]

end DirectCache

end EntityCache
