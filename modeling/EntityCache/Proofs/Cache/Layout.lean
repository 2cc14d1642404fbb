import EntityCache.Proofs.Cache.Backends
import EntityCache.Proofs.Cache.Refinement

/-!
# What the strings of a type belong to

A cache keeps three things of a type that depend on each other: its strings, the index of
relationship names and the set of members.  They are written by different requests, and an eviction
finds the strings that it has to remove through the other two.  `LaidOut` says that it finds all of
them: every string of the type is the attributes of a member, or the relationship of a member with a
name of the index.  Nothing is asked of ids and names here, so a key may belong to several members.

Hence an eviction leaves nothing of its ids, and an id that has been evicted starts from nothing
when an item is merged for it (`layout_performAll`).  Its relationships are read as they were
merged, and its attributes if and only if they are readable.
-/

namespace EntityCache

namespace KeyValueCache

variable (c : KeyValueCache) {type : String} {m m' : Store.Memory}

/-! ## The layout -/

/-- Every string under the type is the attributes of a member, or the relationship of a member with
a name of the index. -/
def LaidOut (type : String) (held : Store.Content) : Prop :=
  ∀ suffix, (held.strings (c.typeKey type suffix)).isSome →
    ∃ id ∈ held.sets (c.membersKey type),
      c.typeKey type suffix = c.attributesKey type id ∨
        ∃ name ∈ held.sets (c.indexKey type),
          c.typeKey type suffix = c.relationshipKey type id name

/-- A store that has never been written to is laid out. -/
theorem laidOut_empty (type : String) : c.LaidOut type .empty := by
  rintro suffix h
  cases h

variable {c}

/-- A string that a merge leaves under a type is one that was there, or a part of one of its items
on this type. -/
theorem Merged.string_cases {t : String} (ht : ValidType t) (htype : ValidType type)
    {items : List Item} (hmerged : c.Merged t items m m') {suffix : String}
    (h : (m'.strings[c.typeKey type suffix]?).isSome) :
    (m.strings[c.typeKey type suffix]?).isSome ∨
      t = type ∧ ∃ item ∈ items, item.isBlank = false ∧
        (c.typeKey type suffix = c.attributesKey type item.id ∨
          ∃ name ∈ item.relationships,
            c.typeKey type suffix = c.relationshipKey type item.id name) := by
  obtain ⟨text, htext⟩ := Option.isSome_iff_exists.1 h
  rw [hmerged.strings] at htext
  rcases mem_or_of_getElem?_putEntries htext with hentry | hbefore
  case inr => exact .inl (by rw [hbefore]; rfl)
  right
  obtain ⟨item, hitem, hentry⟩ := List.mem_flatMap.1 hentry
  -- the key tells the type and the kind, so the entry is one of an item of this type
  rcases c.mem_entries.1 hentry with ⟨hattributes, hkey, -⟩ | ⟨name, ids, hids, hkey, -⟩
  · have hsame := hkey
    rw [attributesKey_eq, typeKey_inj c htype ht] at hsame
    obtain ⟨rfl, -⟩ := hsame
    exact ⟨rfl, item, hitem, by rw [Entity.isBlank, hattributes, Bool.false_and], .inl hkey⟩
  · have hsame := hkey
    rw [relationshipKey_eq, typeKey_inj c htype ht] at hsame
    obtain ⟨rfl, -⟩ := hsame
    have hname : name ∈ item.relationships :=
      Std.ExtTreeMap.isSome_getElem?_iff_mem.1 (by rw [hids]; rfl)
    refine ⟨rfl, item, hitem, ?_, .inr ⟨name, hname, hkey⟩⟩
    have hrelationships : item.relationships.isEmpty = false := by
      rw [← Bool.not_eq_true, Std.ExtTreeMap.isEmpty_iff]
      intro hempty
      simp [hempty] at hname
    rw [Entity.isBlank, hrelationships, Bool.and_false]

/-- A merge adds the ids of its items to the members and their names to the index. -/
theorem LaidOut.merge {t : String} (ht : ValidType t) (htype : ValidType type)
    (h : c.LaidOut type m.content) {items : List Item} (hmerged : c.Merged t items m m') :
    c.LaidOut type m'.content := by
  intro suffix hsome
  rcases hmerged.string_cases ht htype hsome with
    hbefore | ⟨rfl, item, hitem, hblank, hkey⟩
  · obtain ⟨id, hid, hkey⟩ := h suffix hbefore
    refine ⟨id, (hmerged.sets _ _).2 (.inl hid), hkey.imp_right ?_⟩
    rintro ⟨name, hname, hkey⟩
    exact ⟨name, (hmerged.sets _ _).2 (.inl hname), hkey⟩
  · refine ⟨item.id, (hmerged.sets _ _).2 (.inr (.inr ⟨rfl, item, hitem, hblank, rfl⟩)),
      hkey.imp_right ?_⟩
    rintro ⟨name, hname, hkey⟩
    exact ⟨name, (hmerged.sets _ _).2
      (.inr (.inl ⟨rfl, mem_relationshipNames.2 ⟨item, hitem, hname⟩⟩)), hkey⟩

/-- An eviction takes members away only together with all strings that belong to them. -/
theorem LaidOut.evict {t : String} (ht : ValidType t) (htype : ValidType type)
    (h : c.LaidOut type m.content) {ids : List String} (hevicted : c.Evicted t ids m m') :
    c.LaidOut type m'.content := by
  intro suffix hsome
  replace hsome : (m'.strings[c.typeKey type suffix]?).isSome := hsome
  rw [hevicted.strings] at hsome
  split at hsome
  case isTrue => cases hsome
  case isFalse hkept =>
    obtain ⟨id, hid, hkey⟩ := h suffix hsome
    refine ⟨id, (hevicted.mem_members c ht htype).2 ⟨hid, ?_⟩, hkey.imp_right ?_⟩
    · rintro ⟨rfl, hids⟩
      exact hkept (c.mem_evictedKeys.2 ⟨id, hids, hkey⟩)
    · rintro ⟨name, hname, hkey⟩
      exact ⟨name, (hevicted.mem_index c ht htype).2 hname, hkey⟩

/-- Every write that answers keeps up the layout. -/
theorem LaidOut.perform (htype : ValidType type) (h : c.LaidOut type m.content) {write : Write}
    (hrun : Action.on Store.Memory.serve (write.perform c.writer) m = (.ok (), m')) :
    c.LaidOut type m'.content := by
  have ht := validType_of_perform hrun
  cases write with
  | merge t items =>
    obtain ⟨m₁, hmerge, hmerged⟩ := c.on_mergeAll ht items m
    cases hmerge.symm.trans hrun
    exact h.merge ht htype hmerged
  | evict t ids =>
    obtain ⟨m₁, hevict, hevicted⟩ := c.on_evictAll ht ids m
    cases hevict.symm.trans hrun
    exact h.evict ht htype hevicted

/-- So does a history of writes. -/
theorem LaidOut.performAll (htype : ValidType type) {history : List Write}
    (h : c.LaidOut type m.content)
    (hrun : Action.on Store.Memory.serve (Write.performAll c.writer history) m = (.ok (), m')) :
    c.LaidOut type m'.content := by
  induction history generalizing m with
  | nil =>
    cases hrun
    exact h
  | cons write rest ih =>
    obtain ⟨_, m₁, hwrite, hrest⟩ := Action.exists_of_on_bind_ok _ hrun
    exact ih (h.perform htype hwrite) hrest

/-! ## After an eviction -/

/-- When all members are evicted no string is left under the type. -/
theorem LaidOut.strings_eq_none (h : c.LaidOut type m.content) {ids : List String}
    (hids : ∀ id ∈ m.setOf (c.membersKey type), id ∈ ids) (hevicted : c.Evicted type ids m m')
    (suffix : String) : m'.strings[c.typeKey type suffix]? = none := by
  rw [hevicted.strings]
  split
  case isTrue => rfl
  case isFalse hkept =>
    rw [← Option.not_isSome_iff_eq_none]
    intro hsome
    obtain ⟨id, hid, hkey⟩ := h suffix hsome
    exact hkept (c.mem_evictedKeys.2 ⟨id, hids id hid, hkey⟩)

/-- An evicted id is absent. -/
theorem Evicted.stored_eq_none (htype : ValidType type) {ids : List String}
    (hevicted : c.Evicted type ids m m') {id : String} (hid : id ∈ ids) :
    c.stored m' type id = .ok none := by
  apply c.stored_eq_none
  rw [hevicted.strings, if_pos]
  exact (c.attributesKey_mem_evictedKeys htype htype).2 ⟨rfl, hid⟩

/-- An item that is merged where no relationship of its id is stored is read with the attributes of
its text and with its own relationships. -/
theorem Merged.stored_item (htype : ValidType type) {item : Item}
    (hmerged : c.Merged type [item] m m') (hempty : item.attributes.isEmpty = false)
    {attributes : Attributes}
    (hattributes : Attributes.decode? (Attributes.encode item.fields) = some attributes)
    (hnothing : ∀ name ∈ m.setOf (c.indexKey type),
      m.strings[c.relationshipKey type item.id name]? = none) :
    c.stored m' type item.id = .ok (some { item.toEntity with attributes }) := by
  have hstrings : m'.strings = putEntries m.strings (c.entries type item) := by
    rw [hmerged.strings, List.flatMap_singleton]
  refine c.stored_of_parts ?_ hattributes (fun name hname => ?_) fun name hname => ?_
  · rw [hstrings, c.getElem?_attributesKey_putEntries htype, if_pos ⟨rfl, hempty⟩]
  · rw [hstrings, c.getElem?_relationshipKey_putEntries_self htype]
    cases hitem : item.relationships[name]? with
    | some ids => rfl
    | none =>
      -- the item has no such name, so it was indexed before
      have hindexed : name ∈ m.setOf (c.indexKey type) := by
        rcases (hmerged.sets _ _).1 hname with hold | ⟨-, hnew⟩ | ⟨hkey, -⟩
        · exact hold
        · obtain ⟨other, hother, hmem⟩ := mem_relationshipNames.1 hnew
          rw [List.mem_singleton] at hother
          subst hother
          rw [← Std.ExtTreeMap.isSome_getElem?_iff_mem, hitem] at hmem
          cases hmem
        · exact absurd hkey (c.indexKey_ne_membersKey htype htype)
      rw [Option.map_none, Option.none_or, hnothing name hindexed]
  · exact (hmerged.sets _ _).2 (.inr (.inl ⟨rfl, mem_relationshipNames.2 ⟨item, by simp, hname⟩⟩))

/-- An item that is merged for an evicted id is read with the attributes of its text and with its
own relationships. -/
theorem Evicted.stored_merge (htype : ValidType type) {ids : List String}
    (hevicted : c.Evicted type ids m m') {item : Item} (hid : item.id ∈ ids)
    {m'' : Store.Memory} (hmerged : c.Merged type [item] m' m'')
    (hempty : item.attributes.isEmpty = false) {attributes : Attributes}
    (hattributes : Attributes.decode? (Attributes.encode item.fields) = some attributes) :
    c.stored m'' type item.id = .ok (some { item.toEntity with attributes }) := by
  refine hmerged.stored_item htype hempty hattributes fun name hname => ?_
  -- the name was indexed before, so the eviction has removed the string
  rw [hevicted.strings, if_pos]
  exact c.mem_evictedKeys.2
    ⟨item.id, hid, .inr ⟨name, (hevicted.mem_index c htype htype).1 hname, rfl⟩⟩

/-! ## Both kinds of stores -/

variable {α : Type} {s : Store.Backing}

/-- What an operation does in memory it does on a store that cannot be told from it. -/
theorem Action.on_twin (h : s.Twin m) {a : Action α} (ha : a.Adds) {x : α}
    (hrun : Action.on Store.Memory.serve a m = (.ok x, m')) :
    ∃ s', Action.on Store.Backing.serve a s = (.ok x, s') ∧ s'.Twin m' := by
  obtain ⟨hresult, htwin⟩ := h.run ha
  have hmemory : Program.run Store.Memory.serve a.run m = (.ok x, m') := hrun
  rw [hmemory] at hresult htwin
  exact ⟨_, Prod.ext hresult rfl, htwin⟩

variable (c)

/-- An id of a type has nothing: it is not listed and it is absent, and an item with attributes that
is merged for it is read with its own relationships, and with its own attributes if and only if
these are readable. -/
structure Gone (type id : String) (s : Store.Backing) : Prop where
  unlisted : ∃ listed,
    (Action.on Store.Backing.serve (c.reader.getIdentifiers type) s).1 = .ok listed ∧ id ∉ listed
  absent : (Action.on Store.Backing.serve (c.reader.get type id) s).1 = .ok none
  startsAnew : ∀ item : Item, item.id = id → item.attributes.isEmpty = false →
    item.attributes.Proper → item.attributes.depth ≤ Document.nestingLimit →
      ∃ s' attributes,
        Action.on Store.Backing.serve (c.writer.merge type item) s = (.ok (), s') ∧
        (Action.on Store.Backing.serve (c.reader.get type id) s').1 =
          .ok (some { item.toEntity with attributes }) ∧
        (attributes = item.attributes ↔ item.attributes.Readable)

variable {c}

/-- What has just been evicted is gone. -/
theorem Evicted.gone (htype : ValidType type) {ids : List String}
    (hevicted : c.Evicted type ids m m') (htwin : s.Twin m') {id : String} (hid : id ∈ ids) :
    c.Gone type id s where
  unlisted := by
    have hlisted : Action.on Store.Memory.serve (c.reader.getIdentifiers type) m' =
        (.ok (m'.members (c.membersKey type)), m') := c.on_getIdentifiers htype m'
    obtain ⟨_, hrun, -⟩ := Action.on_twin htwin (adds_getIdentifiers c type) hlisted
    refine ⟨_, congrArg Prod.fst hrun, ?_⟩
    rw [Store.Memory.mem_members, hevicted.mem_members c htype htype]
    exact fun hmem => hmem.2 ⟨rfl, hid⟩
  absent := by
    have hget := c.on_get htype id m'
    rw [hevicted.stored_eq_none htype hid] at hget
    obtain ⟨_, hrun, -⟩ := Action.on_twin htwin (adds_get type id) hget
    exact congrArg Prod.fst hrun
  startsAnew := by
    rintro item rfl hempty hproper hdepth
    obtain ⟨attributes, hattributes⟩ := Option.isSome_iff_exists.1
      ((Attributes.isSome_decode?_encode item.fields_perm hproper.numbersFit).2 hdepth)
    -- the item is merged into the twin, where what is stored can be read off
    obtain ⟨m'', hmerge, hmerged⟩ := c.on_mergeAll htype [item] m'
    obtain ⟨s', hmerge', htwin'⟩ := Action.on_twin htwin (adds_mergeAll type [item]) hmerge
    have hget := c.on_get htype item.id m''
    rw [hevicted.stored_merge htype hid hmerged hempty hattributes] at hget
    obtain ⟨_, hget', -⟩ := Action.on_twin htwin' (adds_get type item.id) hget
    refine ⟨s', attributes, hmerge', congrArg Prod.fst hget', ?_⟩
    rw [← Attributes.decode?_encode_iff item.fields_perm hproper, hattributes, Option.some.injEq]

/-- Whatever ids are evicted, they are gone. -/
theorem exists_gone_of_evictAll (htype : ValidType type) (htwin : s.Twin m) (ids : List String) :
    ∃ s', Action.on Store.Backing.serve (c.evictAll type ids) s = (.ok (), s') ∧
      ∀ id ∈ ids, c.Gone type id s' := by
  obtain ⟨m', hevict, hevicted⟩ := c.on_evictAll htype ids m
  obtain ⟨s', hrun, htwin'⟩ := Action.on_twin htwin (adds_evictAll type ids) hevict
  exact ⟨s', hrun, fun id hid => hevicted.gone htype htwin' hid⟩

/-- After any history of writes that have all answered, on a store of either kind that was empty,
the strings of a type are laid out.  So evicting all ids that are listed leaves no string under the
type; and whatever ids are evicted next, they are gone. -/
theorem layout_performAll {start : Store.Backing} (hstart : start.Fresh) {history : List Write}
    (hrun : Action.on Store.Backing.serve (Write.performAll c.writer history) start = (.ok (), s))
    (htype : ValidType type) :
    c.LaidOut type s.content ∧
      (∃ s', Action.on Store.Backing.serve (c.reader.getIdentifiers type >>= c.evictAll type) s =
          (.ok (), s') ∧
        ∀ suffix, s'.content.strings (c.typeKey type suffix) = none) ∧
      ∀ ids, ∃ s', Action.on Store.Backing.serve (c.evictAll type ids) s = (.ok (), s') ∧
        ∀ id ∈ ids, c.Gone type id s' := by
  obtain ⟨m, hmemory, htwin⟩ := exists_twin_of_performAll hstart hrun
  have hlaid : c.LaidOut type m.content :=
    LaidOut.performAll htype (Store.Memory.content_empty ▸ c.laidOut_empty type) hmemory
  refine ⟨htwin.content_eq ▸ hlaid, ?_, fun ids => ?_⟩
  · obtain ⟨m', hevict, hevicted⟩ := c.on_evictAll htype (m.members (c.membersKey type)) m
    -- the ids listed are the members, and these are all the ids that have texts
    have hboth : Action.on Store.Memory.serve (c.reader.getIdentifiers type >>= c.evictAll type) m =
        (.ok (), m') :=
      (Action.on_bind_ok _ _ (c.on_getIdentifiers htype m)).trans hevict
    obtain ⟨s', hrun', htwin'⟩ := Action.on_twin htwin
      ((adds_getIdentifiers c type).bind fun ids => adds_evictAll type ids) hboth
    refine ⟨s', hrun', fun suffix => ?_⟩
    rw [htwin'.content_eq]
    exact hlaid.strings_eq_none (fun id hid => Store.Memory.mem_members.2 hid) hevicted suffix
  · exact exists_gone_of_evictAll htype htwin ids

/-! ## An item that is read back, and one that is not -/

/-- A host with one attribute and one relationship. -/
def diskHost (name : String) : Entity :=
  (({ id := "a" } : Entity).withAttribute "ready" (.bool true)).withRelationship name ["d"]

/-- The numbers of the entity are read back as they were. -/
theorem readable_diskHost (name : String) : (diskHost name).attributes.Readable := by
  have hlist : (diskHost name).attributes.toList = [("ready", .bool true)] := rfl
  constructor <;> rw [hlist]
  · decide
  · exact ⟨trivial, trivial⟩
  · exact ⟨trivial, trivial⟩

/-- After a host has been evicted it is merged with another relationship, and has no other. -/
theorem layout_performAll_diskHost :
    ∃ s s' s'',
      Action.on Store.Backing.serve
          (Write.performAll (mk "fleetcache").writer [.merge "host" [(diskHost "disks").listed]])
          (.database {}) = (.ok (), s) ∧
        (mk "fleetcache").LaidOut "host" s.content ∧
        Action.on Store.Backing.serve ((mk "fleetcache").evictAll "host" ["a"]) s = (.ok (), s') ∧
        Action.on Store.Backing.serve
            ((mk "fleetcache").writer.merge "host" (diskHost "volumes").listed) s' =
          (.ok (), s'') ∧
        (Action.on Store.Backing.serve ((mk "fleetcache").reader.get "host" "a") s'').1 =
          .ok (some (diskHost "volumes")) := by
  have htype : ValidType "host" := by decide
  obtain ⟨s, hrun⟩ := @exists_performAll (mk "fleetcache") _ (.inr rfl)
    [.merge "host" [(diskHost "disks").listed]] (by decide)
  obtain ⟨hlaid, -, hevict⟩ := layout_performAll (.inr rfl) hrun htype
  obtain ⟨s', hevict, hgone⟩ := hevict ["a"]
  have hreadable := readable_diskHost "volumes"
  obtain ⟨s'', attributes, hmerge, hget, hattributes⟩ := (hgone "a" (by simp)).startsAnew
    (diskHost "volumes").listed rfl (by decide +kernel) hreadable.proper hreadable.depth
  rw [hattributes.2 hreadable] at hget
  exact ⟨s, s', s'', hrun, hlaid, hevict, hmerge, hget⟩

/-- The double `5e+32`, whose text is read as `5.0000000000000004e+32`. -/
def misread : Double := ⟨false, 6938893903907228, 56, by decide⟩

/-- The double is read back as its neighbour. -/
theorem not_readable_misread : ¬(Json.Number.double misread).Readable := by
  intro h
  have hvalue := h.value?_parts
  revert hvalue
  decide +kernel

/-- An item with this number. -/
def misreadItem : Item :=
  (({ id := "i" } : Entity).withAttribute "x" (.number (.double misread))).listed

/-- The value is one that a cache can be given. -/
theorem proper_misreadItem : misreadItem.attributes.Proper := by
  have hlist : misreadItem.attributes.toList = [("x", .number (.double misread))] := rfl
  constructor
  · rw [hlist]
    exact ⟨trivial, trivial⟩
  · rw [Attributes.NumbersFit, hlist]
    exact ⟨trivial, trivial⟩

/-- The value is shallow enough to be read. -/
theorem depth_misreadItem : misreadItem.attributes.depth ≤ Document.nestingLimit := by
  have hlist : misreadItem.attributes.toList = [("x", .number (.double misread))] := rfl
  rw [Attributes.depth, hlist]
  decide

/-- What is merged for an id that has been evicted cannot always be read back. -/
theorem not_always_read_back : ¬∀ (history : List Write) (ids : List String) (item : Item)
    (s s' s'' : Store.Backing),
    Action.on Store.Backing.serve (Write.performAll (mk "fleetcache").writer history)
      (.memory {}) = (.ok (), s) →
    Action.on Store.Backing.serve ((mk "fleetcache").evictAll "type" ids) s = (.ok (), s') →
    item.id ∈ ids → item.attributes.isEmpty = false → item.attributes.Proper →
    item.attributes.depth ≤ Document.nestingLimit →
    Action.on Store.Backing.serve ((mk "fleetcache").writer.merge "type" item) s' = (.ok (), s'') →
    (Action.on Store.Backing.serve ((mk "fleetcache").reader.get "type" item.id) s'').1 =
      .ok (some item.toEntity) := by
  intro h
  have hlist : misreadItem.attributes.toList = [("x", .number (.double misread))] := rfl
  have htype : ValidType "type" := by decide
  obtain ⟨s', hevict, hgone⟩ :=
    exists_gone_of_evictAll (c := mk "fleetcache") htype (.memory {}) ["i"]
  obtain ⟨s'', attributes, hmerge, hget, hattributes⟩ :=
    (hgone "i" (by simp)).startsAnew misreadItem rfl (by decide +kernel) proper_misreadItem
      depth_misreadItem
  have hsame := h [] ["i"] misreadItem _ s' s'' rfl hevict (by decide) (by decide +kernel)
    proper_misreadItem depth_misreadItem hmerge
  have hitem : misreadItem.id = "i" := rfl
  rw [hitem, hget] at hsame
  -- equal attributes would mean that the number has been read back as it was
  have hnumbers := (hattributes.1 (congrArg Entity.attributes
    (Option.some.inj (Except.ok.inj hsame)))).numbers
  rw [hlist] at hnumbers
  exact not_readable_misread hnumbers.1

end KeyValueCache

end EntityCache
