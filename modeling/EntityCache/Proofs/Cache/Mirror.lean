import EntityCache.Proofs.Cache.Direct
import EntityCache.Proofs.Cache.History

/-!
# The strings that mirror the entities of a type

A direct cache keeps the entities of a type in a map.  A key-value cache keeps the same entities as
flat strings, beside a set of members and an index of relationship names that never shrinks.
`Mirrors` ties the two together for one type: each string is the text of a part of an entity, the
members are the ids of the entities, and the index covers the names of all their relationships.

The relation is set up for names from a `Separable` set, so that no two parts share a key.  A merge
keeps it item by item (`PartsOf.merge`), which takes care of repeated ids in one batch; an eviction
removes more keys than there are strings, but no key of another entity (`Mirrors.evict`); and both
leave the other types alone, whose keys are all different.
-/

namespace EntityCache

namespace KeyValueCache

variable (c : KeyValueCache) {names : Set String} {type type' : String}
variable {m m' : Store.Memory} {es : Entities}

/-! ## The relation -/

/-- A slot holds the attributes of an entity, if it is there and has any. -/
def HoldsAttributes (slot : Option String) (e : Option Entity) : Prop :=
  Attributes.Held slot ((e.filter (·.isVisible)).map (·.attributes))

/-- The stored text of one relationship of an entity, if it is there and has it. -/
def relationshipText (name : String) (e : Option Entity) : Option String :=
  (e.bind (·.relationships[name]?)).map Names.encode

/-- The strings of an id are the texts of the parts of an entity, as far as its relationships have
names of the set; without an entity there are none. -/
structure PartsOf (names : Set String) (type id : String) (strings : String → Option String)
    (e : Option Entity) : Prop where
  attributes : HoldsAttributes (strings (c.attributesKey type id)) e
  relationships : ∀ name ∈ names,
    strings (c.relationshipKey type id name) = relationshipText name e

/-- The strings of a type are the texts of the parts of its entities. -/
structure PartsAt (names : Set String) (type : String) (strings : Std.ExtTreeMap String String)
    (es : Entities) : Prop where
  attributes : ∀ id : String, HoldsAttributes strings[c.attributesKey type id]? es[id]?
  relationships : ∀ id : String, ∀ name ∈ names,
    strings[c.relationshipKey type id name]? = relationshipText name es[id]?

/-- The keys of a type hold its entities. -/
structure Mirrors (names : Set String) (type : String) (m : Store.Memory) (es : Entities) :
    Prop where
  parts : c.PartsAt names type m.strings es
  members : ∀ id, id ∈ m.setOf (c.membersKey type) ↔ id ∈ es
  index : ∀ name ∈ m.setOf (c.indexKey type), name ∈ names
  indexed : ∀ (id : String) e, es[id]? = some e →
    ∀ name ∈ e.relationships, name ∈ m.setOf (c.indexKey type)
  keyed : ∀ (id : String) e, es[id]? = some e → e.id = id
  readable : ∀ (id : String) e, es[id]? = some e → e.attributes.Readable

/-- A fresh store holds no entities. -/
theorem mirrors_empty : c.Mirrors names type {} ∅ := by
  refine ⟨⟨?attributes, ?relationships⟩, ?members, ?index, ?indexed, ?keyed, ?readable⟩
  case attributes =>
    intro id
    simp [HoldsAttributes]
  case relationships => simp [relationshipText]
  case members => simp [Store.Memory.setOf]
  case index => simp [Store.Memory.setOf]
  -- the rest is about entities, and there are none
  case indexed => simp
  case keyed => simp
  case readable => simp

/-- The relation only looks at the keys of its type. -/
theorem Mirrors.frame (h : c.Mirrors names type m es)
    (hattributes : ∀ id : String,
      m'.strings[c.attributesKey type id]? = m.strings[c.attributesKey type id]?)
    (hrelationships : ∀ id name : String,
      m'.strings[c.relationshipKey type id name]? = m.strings[c.relationshipKey type id name]?)
    (hmembers : ∀ x, x ∈ m'.setOf (c.membersKey type) ↔ x ∈ m.setOf (c.membersKey type))
    (hindex : ∀ x, x ∈ m'.setOf (c.indexKey type) ↔ x ∈ m.setOf (c.indexKey type)) :
    c.Mirrors names type m' es where
  parts := ⟨fun id => hattributes id ▸ h.parts.attributes id, fun id name hname =>
    (hrelationships id name).trans (h.parts.relationships id name hname)⟩
  members id := (hmembers id).trans (h.members id)
  index name hname := h.index name ((hindex name).1 hname)
  indexed id e he name hname := (hindex name).2 (h.indexed id e he name hname)
  keyed := h.keyed
  readable := h.readable

/-! ## Merging -/

/-- The attributes written by an item are found, and those of other ids stay. -/
theorem getElem?_attributesKey_putEntries (htype : ValidType type)
    (strings : Std.ExtTreeMap String String) (item : Item) (id : String) :
    (putEntries strings (c.entries type item))[c.attributesKey type id]? =
      if item.id = id ∧ item.attributes.isEmpty = false then
        some (Attributes.encode item.fields)
      else strings[c.attributesKey type id]? := by
  split
  case isTrue h =>
    obtain ⟨rfl, hattributes⟩ := h
    apply getElem?_putEntries_of_mem _ ((c.mem_entries).2 (.inl ⟨hattributes, rfl, rfl⟩))
    -- no other entry of the item has this key
    intro text htext
    rcases c.mem_entries.1 htext with ⟨-, -, h⟩ | ⟨name, ids, -, h, -⟩
    · exact h
    · exact absurd h (c.attributesKey_ne_relationshipKey htype htype)
  case isFalse h =>
    apply getElem?_putEntries_of_notMem
    intro hmem
    obtain ⟨⟨key, text⟩, hentry, rfl⟩ := List.mem_map.1 hmem
    rcases c.mem_entries.1 hentry with ⟨hattributes, hkey, -⟩ | ⟨name, ids, -, hkey, -⟩
    · exact h ⟨((c.attributesKey_inj htype htype).1 hkey).2.symm, hattributes⟩
    · exact absurd hkey (c.attributesKey_ne_relationshipKey htype htype)

/-- The relationships written by an item are found under its id, and what else is there stays. -/
theorem getElem?_relationshipKey_putEntries_self (htype : ValidType type)
    (strings : Std.ExtTreeMap String String) (item : Item) (name : String) :
    (putEntries strings (c.entries type item))[c.relationshipKey type item.id name]? =
      (item.relationships[name]?.map Names.encode).or
        strings[c.relationshipKey type item.id name]? := by
  -- an entry of the key is the relationship of this name
  have hentry {text : String} : (c.relationshipKey type item.id name, text) ∈ c.entries type item →
      ∃ ids, item.relationships[name]? = some ids ∧ text = Names.encode ids := by
    intro h
    rcases c.mem_entries.1 h with ⟨-, hkey, -⟩ | ⟨other, ids, hids, hkey, htext⟩
    · exact absurd hkey.symm (c.attributesKey_ne_relationshipKey htype htype)
    · have hname := ((c.relationshipKey_eq_iff htype htype).1 hkey).2
      rw [String.append_right_inj] at hname
      exact ⟨ids, hname ▸ hids, htext⟩
  cases hids : item.relationships[name]? with
  | some ids =>
    apply getElem?_putEntries_of_mem _ (c.mem_entries.2 (.inr ⟨name, ids, hids, rfl, rfl⟩))
    intro text htext
    obtain ⟨ids', hids', rfl⟩ := hentry htext
    rw [hids] at hids'
    rw [Option.some.inj hids']
  | none =>
    apply getElem?_putEntries_of_notMem
    intro hmem
    obtain ⟨⟨key, text⟩, hmem, rfl⟩ := List.mem_map.1 hmem
    obtain ⟨ids, hids', -⟩ := hentry hmem
    rw [hids] at hids'
    exact absurd hids' (by simp)

/-- The relationships written by an item are found, and those of other ids stay. -/
theorem getElem?_relationshipKey_putEntries (hnames : Separable names) (htype : ValidType type)
    (strings : Std.ExtTreeMap String String) {item : Item}
    (hitem : ∀ name ∈ item.relationships, name ∈ names) (id : String) {name : String}
    (hname : name ∈ names) :
    (putEntries strings (c.entries type item))[c.relationshipKey type id name]? =
      if item.id = id then
        (item.relationships[name]?.map Names.encode).or strings[c.relationshipKey type id name]?
      else strings[c.relationshipKey type id name]? := by
  by_cases hid : item.id = id
  · subst hid
    rw [if_pos rfl, c.getElem?_relationshipKey_putEntries_self htype]
  -- entries of another id have other keys
  · rw [if_neg hid]
    apply getElem?_putEntries_of_notMem
    intro hmem
    obtain ⟨⟨key, text⟩, hmem, rfl⟩ := List.mem_map.1 hmem
    rcases c.mem_entries.1 hmem with ⟨-, hkey, -⟩ | ⟨other, ids, hids, hkey, -⟩
    · exact c.attributesKey_ne_relationshipKey htype htype hkey.symm
    · have hother : other ∈ names :=
        hitem other (Std.ExtTreeMap.isSome_getElem?_iff_mem.1 (by rw [hids]; rfl))
      exact hid ((c.relationshipKey_inj hnames htype htype hname hother).1 hkey).2.1.symm

/-- For an entity, the slot holds its attributes, or nothing if it has none. -/
theorem holdsAttributes_some_iff {slot : Option String} {e : Entity} :
    HoldsAttributes slot (some e) ↔
      Attributes.Held slot (if e.attributes.isEmpty then none else some e.attributes) := by
  cases h : e.attributes.isEmpty <;> simp [HoldsAttributes, Option.filter, Entity.isVisible, h]

/-- Merged attributes are held by a text of the item's, or by what is there if it has none. -/
theorem HoldsAttributes.laidOver {slot : Option String} {old : Option Entity}
    (h : HoldsAttributes slot old) (item : Item) :
    HoldsAttributes (if item.attributes.isEmpty then slot else some (Attributes.encode item.fields))
      (some (DirectCache.laidOver old item)) := by
  rw [holdsAttributes_some_iff, DirectCache.attributes_laidOver]
  cases hitem : item.attributes.isEmpty with
  | false => simpa [hitem] using item.isText
  | true =>
    cases old with
    | none => simpa [HoldsAttributes] using h
    | some e => simpa using holdsAttributes_some_iff.1 h

/-- A merged relationship has the text of the item's, or the text that is there. -/
theorem relationshipText_laidOver (name : String) (old : Option Entity) (item : Item) :
    relationshipText name (some (DirectCache.laidOver old item)) =
      (item.relationships[name]?.map Names.encode).or (relationshipText name old) := by
  rw [relationshipText, Option.bind_some, DirectCache.relationships_laidOver, Option.map_or]
  rfl

/-- Putting the entries of an item lays it over the entity of its id. -/
theorem PartsOf.merge (hnames : Separable names) (htype : ValidType type)
    {strings : Std.ExtTreeMap String String} {id : String} {e : Option Entity}
    (h : c.PartsOf names type id (strings[·]?) e) {item : Item}
    (hitem : ∀ name ∈ item.relationships, name ∈ names) :
    c.PartsOf names type id ((putEntries strings (c.entries type item))[·]?)
      (DirectCache.upsertItem id e item) := by
  have hattributes : HoldsAttributes strings[c.attributesKey type id]? e := h.attributes
  have hrelationships : ∀ name ∈ names,
      strings[c.relationshipKey type id name]? = relationshipText name e := h.relationships
  constructor
  · simp only [c.getElem?_attributesKey_putEntries htype, DirectCache.upsertItem]
    by_cases hid : item.id = id
    · have hlaid := hattributes.laidOver item
      cases hempty : item.attributes.isEmpty with
      | false =>
        have hblank : item.isBlank = false := by simp [Entity.isBlank, hempty]
        rw [hempty, if_neg Bool.false_ne_true] at hlaid
        rwa [if_pos ⟨hid, rfl⟩, if_pos ⟨hblank, hid⟩]
      | true =>
        -- the item has none to write, so those of the entity stand
        rw [hempty, if_pos rfl] at hlaid
        rw [if_neg (by simp)]
        split
        · exact hlaid
        · exact hattributes
    · rwa [if_neg (by simp [hid]), if_neg (by simp [hid])]
  · intro name hname
    simp only [c.getElem?_relationshipKey_putEntries hnames htype strings hitem id hname,
      DirectCache.upsertItem, hrelationships name hname]
    by_cases hid : item.id = id
    · rw [if_pos hid]
      cases hblank : item.isBlank with
      | false =>
        rw [if_pos ⟨rfl, hid⟩, relationshipText_laidOver]
      | true =>
        have hnone : item.relationships[name]? = none := by
          simp only [Entity.isBlank, Bool.and_eq_true, Std.ExtTreeMap.isEmpty_iff] at hblank
          simp [hblank.2]
        simp [hnone]
    · rw [if_neg hid, if_neg (by simp [hid])]

/-- Putting the entries of several items lays them over each other in order. -/
theorem PartsOf.mergeAll (hnames : Separable names) (htype : ValidType type)
    {strings : Std.ExtTreeMap String String} {id : String} {e : Option Entity}
    (h : c.PartsOf names type id (strings[·]?) e) {items : List Item}
    (hitems : ∀ item ∈ items, ∀ name ∈ item.relationships, name ∈ names) :
    c.PartsOf names type id ((putEntries strings (items.flatMap (c.entries type)))[·]?)
      (items.foldl (DirectCache.upsertItem id) e) := by
  induction items generalizing strings e with
  | nil => exact h
  | cons item items ih =>
    rw [List.flatMap_cons, putEntries_append, List.foldl_cons]
    exact ih (h.merge c hnames htype (hitems item (by simp)))
      fun other hother => hitems other (by simp [hother])

/-- The strings of a type are those of each id. -/
theorem PartsAt.partsOf {strings : Std.ExtTreeMap String String}
    (h : c.PartsAt names type strings es) (id : String) :
    c.PartsOf names type id (strings[·]?) es[id]? :=
  ⟨h.attributes id, h.relationships id⟩

/-- Putting the entries of several items merges them in order. -/
theorem PartsAt.mergeAll (hnames : Separable names) (htype : ValidType type)
    {strings : Std.ExtTreeMap String String} (h : c.PartsAt names type strings es)
    {items : List Item} (hitems : ∀ item ∈ items, ∀ name ∈ item.relationships, name ∈ names) :
    c.PartsAt names type (putEntries strings (items.flatMap (c.entries type)))
      (items.foldl DirectCache.mergeItem es) := by
  have hparts (id : String) := (h.partsOf c id).mergeAll c hnames htype hitems
  constructor
  · intro id
    rw [DirectCache.getElem?_foldl_mergeItem]
    exact (hparts id).attributes
  · intro id name hname
    rw [DirectCache.getElem?_foldl_mergeItem]
    exact (hparts id).relationships name hname

/-- A merge on the type is a merge into its entities. -/
theorem Mirrors.merge (hnames : Separable names) (htype : ValidType type)
    (h : c.Mirrors names type m es) {items : List Item} (hmerged : c.Merged type items m m')
    (hitems : ∀ item ∈ items, ∀ name ∈ item.relationships, name ∈ names)
    (hreadable : ∀ item ∈ items, item.attributes.Readable) :
    c.Mirrors names type m' (items.foldl DirectCache.mergeItem es) where
  parts := by
    rw [hmerged.strings]
    exact h.parts.mergeAll c hnames htype hitems
  members id := by
    rw [hmerged.sets, h.members, DirectCache.mem_foldl_mergeItem]
    simp [(c.indexKey_ne_membersKey htype htype).symm]
  index name hname := by
    -- a name of the index was there, or is one of the items; members are another set
    rcases (hmerged.sets _ _).1 hname with hold | ⟨-, hnew⟩ | ⟨hkey, -⟩
    · exact h.index name hold
    · obtain ⟨item, hitem, hmem⟩ := mem_relationshipNames.1 hnew
      exact hitems item hitem name hmem
    · exact absurd hkey (c.indexKey_ne_membersKey htype htype)
  indexed := by
    refine DirectCache.forall_foldl_mergeItem (fun id e he name hname => ?_)
      fun item hitem old hold name hname => ?_
    · exact (hmerged.sets _ _).2 (.inl (h.indexed id e he name hname))
    · -- a name of the result is one of the item, which the merge has indexed, or an old one
      rcases (DirectCache.mem_relationships_laidOver old item name).1 hname with
        hname | ⟨e, he, hname⟩
      · exact (hmerged.sets _ _).2
          (.inr (.inl ⟨rfl, mem_relationshipNames.2 ⟨item, hitem, hname⟩⟩))
      · exact hold e he name hname
  keyed := by
    refine DirectCache.forall_foldl_mergeItem h.keyed fun item _ old hold => ?_
    cases old with
    | none => rfl
    | some e => exact hold e rfl
  readable := by
    refine DirectCache.forall_foldl_mergeItem h.readable fun item hitem old hold => ?_
    rw [DirectCache.attributes_laidOver]
    split
    case isTrue hempty =>
      cases old with
      | none =>
        have hitem := hreadable item hitem
        rwa [Std.ExtTreeMap.isEmpty_iff.1 hempty] at hitem
      | some e => exact hold e rfl
    case isFalse => exact hreadable item hitem

/-- A merge writes no string but the parts of its items. -/
theorem Merged.strings_of_ne {items : List Item} (hmerged : c.Merged type items m m')
    {key : String} (h : ∀ item ∈ items, key ≠ c.attributesKey type item.id ∧
      ∀ name ∈ item.relationships, key ≠ c.relationshipKey type item.id name) :
    m'.strings[key]? = m.strings[key]? := by
  rw [hmerged.strings]
  apply getElem?_putEntries_of_notMem
  intro hmem
  obtain ⟨item, hitem, hkey | ⟨name, hname, hkey⟩⟩ := c.exists_item_of_mem_keys hmem
  · exact (h item hitem).1 hkey
  · exact (h item hitem).2 name hname hkey

/-- A merge on one type leaves the strings of every other type as they are. -/
theorem Merged.strings_other (htype : ValidType type) (htype' : ValidType type')
    (hne : type ≠ type') {items : List Item} (hmerged : c.Merged type items m m')
    (suffix : String) :
    m'.strings[c.typeKey type' suffix]? = m.strings[c.typeKey type' suffix]? := by
  refine hmerged.strings_of_ne c fun item _ => ⟨fun heq => ?_, fun name _ heq => ?_⟩
  · rw [attributesKey_eq, typeKey_inj c htype' htype] at heq
    exact hne heq.1.symm
  · rw [relationshipKey_eq, typeKey_inj c htype' htype] at heq
    exact hne heq.1.symm

/-- A merge on one type leaves every other type as it is. -/
theorem Mirrors.merge_other (htype : ValidType type) (htype' : ValidType type')
    (hne : type ≠ type') (h : c.Mirrors names type' m es) {items : List Item}
    (hmerged : c.Merged type items m m') : c.Mirrors names type' m' es := by
  apply h.frame c
  · intro id
    rw [attributesKey_eq, hmerged.strings_other c htype htype' hne]
  · intro id name
    rw [relationshipKey_eq, hmerged.strings_other c htype htype' hne]
  · intro x
    rw [hmerged.sets, c.membersKey_inj htype' htype]
    simp [(c.indexKey_ne_membersKey htype htype').symm, hne.symm]
  · intro x
    rw [hmerged.sets, c.indexKey_inj htype' htype]
    simp [c.indexKey_ne_membersKey htype' htype, hne.symm]

/-! ## Evicting -/

/-- An eviction removes the attributes of its ids. -/
theorem attributesKey_mem_evictedKeys (htype : ValidType type) (htype' : ValidType type')
    {ids : List String} {id : String} :
    c.attributesKey type' id ∈ c.evictedKeys m type ids ↔ type' = type ∧ id ∈ ids := by
  rw [mem_evictedKeys]
  constructor
  · rintro ⟨other, hother, hkey | ⟨name, -, hkey⟩⟩
    · obtain ⟨rfl, rfl⟩ := (c.attributesKey_inj htype' htype).1 hkey
      exact ⟨rfl, hother⟩
    · exact absurd hkey (c.attributesKey_ne_relationshipKey htype' htype)
  · rintro ⟨rfl, hid⟩
    exact ⟨id, hid, .inl rfl⟩

/-- An eviction removes the indexed relationships of its ids. -/
theorem relationshipKey_mem_evictedKeys (hnames : Separable names) (htype : ValidType type)
    (hindex : ∀ name ∈ m.setOf (c.indexKey type), name ∈ names) {ids : List String}
    {id name : String} (hname : name ∈ names) :
    c.relationshipKey type id name ∈ c.evictedKeys m type ids ↔
      id ∈ ids ∧ name ∈ m.setOf (c.indexKey type) := by
  rw [mem_evictedKeys]
  constructor
  · rintro ⟨other, hother, hkey | ⟨indexed, hindexed, hkey⟩⟩
    · exact absurd hkey.symm (c.attributesKey_ne_relationshipKey htype htype)
    · obtain ⟨-, rfl, rfl⟩ :=
        (c.relationshipKey_inj hnames htype htype hname (hindex indexed hindexed)).1 hkey
      exact ⟨hother, hindexed⟩
  · rintro ⟨hid, hindexed⟩
    exact ⟨id, hid, .inr ⟨name, hindexed, rfl⟩⟩

/-- An eviction changes no index. -/
theorem Evicted.mem_index (htype : ValidType type) (htype' : ValidType type') {ids : List String}
    (hevicted : c.Evicted type ids m m') {x : String} :
    x ∈ m'.setOf (c.indexKey type') ↔ x ∈ m.setOf (c.indexKey type') := by
  have hkey : c.indexKey type' ∉ c.evictedKeys m type ids := fun h =>
    (c.isStringKey_of_mem_deleted htype h).ne_indexKey c htype' rfl
  rw [hevicted.sets]
  simp [hkey, c.indexKey_ne_membersKey htype' htype]

/-- An eviction takes its ids from the members of its type. -/
theorem Evicted.mem_members (htype : ValidType type) (htype' : ValidType type')
    {ids : List String} (hevicted : c.Evicted type ids m m') {x : String} :
    x ∈ m'.setOf (c.membersKey type') ↔
      x ∈ m.setOf (c.membersKey type') ∧ ¬(type' = type ∧ x ∈ ids) := by
  have hkey : c.membersKey type' ∉ c.evictedKeys m type ids := fun h =>
    (c.isStringKey_of_mem_deleted htype h).ne_membersKey c htype' rfl
  rw [hevicted.sets, c.membersKey_inj htype' htype]
  simp [hkey]

/-- A name that the index does not have is the name of no relationship. -/
theorem Mirrors.relationshipText_eq_none (h : c.Mirrors names type m es) {name : String}
    (hindexed : name ∉ m.setOf (c.indexKey type)) (id : String) :
    relationshipText name es[id]? = none := by
  cases he : es[id]? with
  | none => rfl
  | some e =>
    have hmem : name ∉ e.relationships := fun hmem => hindexed (h.indexed id e he name hmem)
    simp [relationshipText, Std.ExtTreeMap.getElem?_eq_none hmem]

/-- What is left has been there before. -/
theorem getElem?_of_evicted {es' : Entities} {ids : List String}
    (hes : ∀ id : String, es'[id]? = if id ∈ ids then none else es[id]?) {id : String} {e : Entity}
    (he : es'[id]? = some e) : es[id]? = some e := by
  rw [hes] at he
  split at he
  · exact absurd he (by simp)
  · exact he

/-- An eviction on the type takes its ids from the entities. -/
theorem Mirrors.evict (hnames : Separable names) (htype : ValidType type)
    (h : c.Mirrors names type m es) {ids : List String} (hevicted : c.Evicted type ids m m')
    {es' : Entities} (hes : ∀ id : String, es'[id]? = if id ∈ ids then none else es[id]?) :
    c.Mirrors names type m' es' where
  parts := by
    constructor
    · intro id
      rw [hevicted.strings, hes, if_congr (c.attributesKey_mem_evictedKeys htype htype) rfl rfl]
      by_cases hid : id ∈ ids
      · simp [hid, HoldsAttributes]
      · simpa [hid] using h.parts.attributes id
    · intro id name hname
      rw [hevicted.strings, hes, h.parts.relationships id name hname,
        if_congr (c.relationshipKey_mem_evictedKeys hnames htype h.index hname) rfl rfl]
      by_cases hid : id ∈ ids
      · by_cases hindexed : name ∈ m.setOf (c.indexKey type)
        · simp [hid, hindexed, relationshipText]
        · -- the key is not removed, but no string is there
          rw [if_neg (by simp [hindexed]), if_pos hid, h.relationshipText_eq_none c hindexed id]
          rfl
      · simp [hid]
  members id := by
    rw [hevicted.mem_members c htype htype, h.members, ← Std.ExtTreeMap.isSome_getElem?_iff_mem,
      ← Std.ExtTreeMap.isSome_getElem?_iff_mem, hes]
    by_cases hid : id ∈ ids <;> simp [hid]
  index name hname := h.index name ((hevicted.mem_index c htype htype).1 hname)
  indexed id e he name hname := by
    rw [hevicted.mem_index c htype htype]
    exact h.indexed id e (getElem?_of_evicted hes he) name hname
  keyed id e he := h.keyed id e (getElem?_of_evicted hes he)
  readable id e he := h.readable id e (getElem?_of_evicted hes he)

/-- An eviction on one type leaves every other type as it is. -/
theorem Mirrors.evict_other (htype : ValidType type) (htype' : ValidType type')
    (hne : type ≠ type') (h : c.Mirrors names type' m es) {ids : List String}
    (hevicted : c.Evicted type ids m m') : c.Mirrors names type' m' es := by
  -- nothing of the other type is removed: neither its strings, nor its members, nor its index
  apply h.frame c
  · intro id
    rw [hevicted.strings, if_neg]
    rw [c.attributesKey_mem_evictedKeys htype htype']
    exact fun heq => hne heq.1.symm
  · intro id name
    rw [hevicted.strings, if_neg]
    rw [mem_evictedKeys]
    rintro ⟨other, -, hkey | ⟨indexed, -, hkey⟩⟩
    · exact c.attributesKey_ne_relationshipKey htype htype' hkey.symm
    · exact hne ((c.relationshipKey_eq_iff htype' htype).1 hkey).1.symm
  · intro x
    rw [hevicted.mem_members c htype htype']
    simp [hne.symm]
  · intro x
    exact hevicted.mem_index c htype htype'

end KeyValueCache

end EntityCache
