import EntityCache.Proofs.Cache.Mirror

/-!
# A cache on a store in memory refines a direct cache

Where a store mirrors the entities of a type, reading an id from it gives the entity of the id
(`Mirrors.stored`), so both caches answer every lookup alike.  `performAll_simulates` carries the
mirror through a history of writes, for all valid types at once.
-/

namespace EntityCache

namespace KeyValueCache

variable (c : KeyValueCache) {names : Set String} {type : String}
variable {m : Store.Memory} {es : Entities} {d : DirectCache}

/-! ## Reading what is mirrored -/

/-- The texts of relationships are read back, those of the known names. -/
theorem decodeNamed_encode (known : List String) (relationships : Relationships) :
    decodeNamed (present known fun name => relationships[name]?.map Names.encode) =
      .ok (known.filterMap fun name => relationships[name]?.map (name, ·)) := by
  induction known with
  | nil => rfl
  | cons name known ih =>
    rw [present, List.filterMap_cons, List.filterMap_cons, ← present]
    cases relationships[name]? with
    | none => exact ih
    | some ids =>
      simp only [Option.map_some, decodeNamed, Names.decode?_encode, ih]
      rfl

/-- Relationships whose names are all known are rebuilt from what is read. -/
theorem ofList_filterMap_known {known : List String} {relationships : Relationships}
    (hsorted : known.Pairwise (· < ·)) (hknown : ∀ name ∈ relationships, name ∈ known) :
    Std.ExtTreeMap.ofList (known.filterMap fun name => relationships[name]?.map (name, ·)) =
      relationships := by
  refine ofList_eq_of_mem_iff ?_ fun name ids => ?_
  · rw [List.pairwise_filterMap]
    refine hsorted.imp fun {a b} hlt p hp q hq => ?_
    obtain ⟨ids, -, rfl⟩ := Option.map_eq_some_iff.1 hp
    obtain ⟨ids', -, rfl⟩ := Option.map_eq_some_iff.1 hq
    rw [compare_eq_iff_eq]
    exact String.ne_of_lt hlt
  · simp only [List.mem_filterMap, Option.map_eq_some_iff, Prod.mk.injEq]
    constructor
    · rintro ⟨other, -, ids', hids, rfl, rfl⟩
      exact hids
    · intro hids
      have hmem : name ∈ relationships :=
        Std.ExtTreeMap.isSome_getElem?_iff_mem.1 (by rw [hids]; rfl)
      exact ⟨name, hknown name hmem, ids, hids, rfl, rfl⟩

/-- From the slots of an id an entity is read with the attributes and the relationships that are
there, if all names of relationships are known. -/
theorem decodeEntity_of_parts {known : List String} (hsorted : known.Pairwise (· < ·))
    {f : String → Option String} {id text : String} {attributes : Attributes}
    {relationships : Relationships} (htext : f (c.attributesKey type id) = some text)
    (hattributes : Attributes.decode? text = some attributes)
    (hstrings : ∀ name ∈ known,
      f (c.relationshipKey type id name) = relationships[name]?.map Names.encode)
    (hknown : ∀ name ∈ relationships, name ∈ known) :
    decodeEntity known id ((c.entityKeys known type id).map f) =
      .ok (some ⟨id, attributes, relationships⟩) := by
  have hslots : (known.map (c.relationshipKey type id)).map f =
      known.map fun name => relationships[name]?.map Names.encode := by
    rw [List.map_map]
    exact List.map_congr_left hstrings
  rw [entityKeys, List.map_cons, htext, hslots]
  simp only [decodeEntity, hattributes, decodeRelationships_map, decodeNamed_encode, Except.map,
    ofList_filterMap_known hsorted hknown]

/-- Where attributes are read, and the index covers the relationships that are there, an id is read
with both. -/
theorem stored_of_parts {id text : String} {attributes : Attributes}
    {relationships : Relationships} (htext : m.strings[c.attributesKey type id]? = some text)
    (hattributes : Attributes.decode? text = some attributes)
    (hstrings : ∀ name ∈ m.setOf (c.indexKey type),
      m.strings[c.relationshipKey type id name]? = relationships[name]?.map Names.encode)
    (hindexed : ∀ name ∈ relationships, name ∈ m.setOf (c.indexKey type)) :
    c.stored m type id = .ok (some ⟨id, attributes, relationships⟩) :=
  c.decodeEntity_of_parts (m.members_sorted _) htext hattributes
    (fun name hname => hstrings name (Store.Memory.mem_members.1 hname))
    fun name hname => Store.Memory.mem_members.2 (hindexed name hname)

/-- Without attributes an id is absent. -/
theorem stored_eq_none {id : String} (h : m.strings[c.attributesKey type id]? = none) :
    c.stored m type id = .ok none := by
  rw [KeyValueCache.stored, entityKeys, List.map_cons, h]
  rfl

/-- Reading an id gives the entity whose parts are there, if it has attributes and they are
readable. -/
theorem PartsOf.stored {id : String} {e : Option Entity}
    (h : c.PartsOf names type id (m.strings[·]?) e)
    (hindex : ∀ name ∈ m.setOf (c.indexKey type), name ∈ names)
    (hindexed : ∀ x ∈ e, ∀ name ∈ x.relationships, name ∈ m.setOf (c.indexKey type))
    (hkeyed : ∀ x ∈ e, x.id = id) (hreadable : ∀ x ∈ e, x.attributes.Readable) :
    c.stored m type id = .ok (e.filter (·.isVisible)) := by
  have hattributes : HoldsAttributes m.strings[c.attributesKey type id]? e := h.attributes
  -- an entity that is not visible has no attributes, and then nothing is read
  cases hvisible : e.filter (·.isVisible) with
  | none =>
    rw [HoldsAttributes, hvisible, Option.map_none, Attributes.held_none_iff] at hattributes
    exact c.stored_eq_none hattributes
  | some x =>
    obtain ⟨hx, -⟩ := Option.filter_eq_some_iff.1 hvisible
    rw [HoldsAttributes, hvisible, Option.map_some, Attributes.held_some_iff] at hattributes
    obtain ⟨_, htext, fields, hfields, rfl⟩ := hattributes
    have hstored := c.stored_of_parts htext (Attributes.decode?_encode hfields (hreadable x hx))
      (fun name hname => by rw [h.relationships name (hindex name hname), hx]; rfl)
      (hindexed x hx)
    rw [hstored, ← hkeyed x hx]

/-- Reading an id gives its entity, if it has attributes. -/
theorem Mirrors.stored (h : c.Mirrors names type m es) (id : String) :
    c.stored m type id = .ok (es[id]?.filter (·.isVisible)) :=
  (h.parts.partsOf c id).stored c h.index (h.indexed id) (h.keyed id) (h.readable id)

/-- Reading several ids gives their entities. -/
theorem Mirrors.readEach (h : c.Mirrors names type m es) (ids : List String) :
    KeyValueCache.readEach (c.stored m type) ids =
      .ok ((ids.filterMap (es[·]?)).filter (·.isVisible)) := by
  rw [readEach_ok fun id _ => h.stored c id, List.filter_filterMap]

/-- The members are the ids of the entities, in the same order. -/
theorem Mirrors.members_eq (h : c.Mirrors names type m es) :
    m.members (c.membersKey type) = es.keys := by
  have hkeys : es.keys.Pairwise (· < ·) :=
    Std.ExtTreeMap.ordered_keys.imp compare_lt_iff_lt.1
  refine List.Perm.eq_of_pairwise (fun a b _ _ hab hba => absurd hab (lt_asymm hba))
    (m.members_sorted _) hkeys ?_
  rw [List.perm_ext_iff_of_nodup ((m.members_sorted _).imp String.ne_of_lt)
    (hkeys.imp String.ne_of_lt)]
  intro id
  rw [Store.Memory.mem_members, h.members, Std.ExtTreeMap.mem_keys]

/-- The entities of a map are those of its keys. -/
theorem filterMap_keys (es : Entities) : es.keys.filterMap (es[·]?) = es.toList.map (·.2) := by
  rw [← Std.ExtTreeMap.map_fst_toList_eq_keys, List.filterMap_map, ← List.filterMap_eq_map]
  apply List.filterMap_congr
  intro p hp
  exact Std.ExtTreeMap.mem_toList_iff_getElem?_eq_some.1 hp

/-! ## The same answers -/

/-- Both caches answer without failing, and their answers are related. -/
def BothAnswer {α : Type} (related : α → α → Prop) (x : Except DomainError α × Store.Memory)
    (y : Except DomainError α × DirectCache) : Prop :=
  ∃ a b, x.1 = .ok a ∧ y.1 = .ok b ∧ related a b

/-- A key-value cache on a store and a direct cache cannot be told apart by reading a type: ids and
entities of the type are listed alike up to their order, and every lookup by id answers alike. -/
structure SameAnswers (type : String) (m : Store.Memory) (d : DirectCache) : Prop where
  getIdentifiers : BothAnswer List.Perm
    (Action.on Store.Memory.serve (c.reader.getIdentifiers type) m)
    (DirectCache.on (DirectCache.reader.getIdentifiers type) d)
  getAll : BothAnswer List.Perm
    (Action.on Store.Memory.serve (c.reader.getAll type) m)
    (DirectCache.on (DirectCache.reader.getAll type) d)
  get : ∀ id, BothAnswer Eq
    (Action.on Store.Memory.serve (c.reader.get type id) m)
    (DirectCache.on (DirectCache.reader.get type id) d)
  getAllByIds : ∀ ids, BothAnswer Eq
    (Action.on Store.Memory.serve (c.reader.getAllByIds type ids) m)
    (DirectCache.on (DirectCache.reader.getAllByIds type ids) d)

/-- A direct cache answers a lookup of one id with its visible entity. -/
theorem on_direct_get (d : DirectCache) (type id : String) :
    DirectCache.on (DirectCache.reader.get type id) d =
      (.ok ((d.entities type)[id]?.filter (·.isVisible)), d) := by
  have hone : distinct [id] = [id] := distinct_eq_self (by simp)
  have hmany : DirectCache.on (DirectCache.reader.getAllByIds type [id]) d =
      (.ok (d.getAllByIds type [id]), d) := rfl
  rw [Reader.get, DirectCache.on_bind_ok _ hmany, DirectCache.getAllByIds, hone]
  show (Except.ok _, d) = _
  cases hfound : (d.entities type)[id]? with
  | none => simp [hfound]
  | some e => cases hvisible : e.isVisible <;> simp [hfound, hvisible, Option.filter]

/-- A store that mirrors the entities of a type answers like a direct cache. -/
theorem Mirrors.sameAnswers (htype : ValidType type)
    (h : c.Mirrors names type m (d.entities type)) : c.SameAnswers type m d where
  getIdentifiers :=
    ⟨_, _, congrArg Prod.fst (c.on_getIdentifiers htype m), rfl, .of_eq (h.members_eq c)⟩
  getAll := by
    refine ⟨_, _, (congrArg Prod.fst (c.on_getAll htype m)).trans (h.readEach c _), rfl, .of_eq ?_⟩
    rw [h.members_eq c, filterMap_keys]
    rfl
  get id := ⟨_, _, (congrArg Prod.fst (c.on_get htype id m)).trans (h.stored c id),
    congrArg Prod.fst (on_direct_get d type id), rfl⟩
  getAllByIds ids := ⟨_, _,
    (congrArg Prod.fst (c.on_getAllByIds htype ids m)).trans (h.readEach c _), rfl, rfl⟩

/-- One write keeps up the mirrors of all valid types. -/
theorem mirrors_perform (hnames : Separable names) {write : Write} (hwithin : write.Within names)
    (hreadable : write.Readable)
    (h : ∀ type, ValidType type → c.Mirrors names type m (d.entities type)) :
    ∃ m' d', Action.on Store.Memory.serve (write.perform c.writer) m = (.ok (), m') ∧
      DirectCache.on (write.perform DirectCache.writer) d = (.ok (), d') ∧
      ∀ type, ValidType type → c.Mirrors names type m' (d'.entities type) := by
  cases write with
  | merge type items =>
    obtain ⟨htype, hitems⟩ := hwithin
    obtain ⟨m', hrun, hmerged⟩ := c.on_mergeAll htype items m
    refine ⟨m', d.mergeAll type items, hrun, rfl, ?_⟩
    intro type' htype'
    rw [DirectCache.entities_mergeAll]
    by_cases hne : type = type'
    · subst hne
      rw [if_pos rfl]
      exact (h type htype).merge c hnames htype hmerged hitems hreadable
    · rw [if_neg hne]
      exact (h type' htype').merge_other c htype htype' hne hmerged
  | evict type ids =>
    have htype : ValidType type := hwithin
    obtain ⟨m', hrun, hevicted⟩ := c.on_evictAll htype ids m
    refine ⟨m', d.evictAll type ids, hrun, rfl, ?_⟩
    intro type' htype'
    by_cases hne : type = type'
    · subst hne
      refine (h type htype).evict c hnames htype hevicted fun id => ?_
      rw [DirectCache.getElem?_entities_evictAll]
      simp
    · have hsame : (d.evictAll type ids).entities type' = d.entities type' := by
        apply Std.ExtTreeMap.ext_getElem?
        intro id
        rw [DirectCache.getElem?_entities_evictAll, if_neg fun h => hne h.1]
      rw [hsame]
      exact (h type' htype').evict_other c htype htype' hne hevicted

/-- After any history of writes on valid types, with names without a colon and attributes that are
read back, a cache on a store in memory and a direct cache give the same answers for every valid
type. -/
theorem performAll_sameAnswers {history : List Write}
    (hwithin : ∀ write ∈ history, write.Within {name | ':' ∉ name.toList})
    (hreadable : ∀ write ∈ history, write.Readable) :
    ∃ m d, Action.on Store.Memory.serve (Write.performAll c.writer history) {} = (.ok (), m) ∧
      DirectCache.on (Write.performAll DirectCache.writer history) {} = (.ok (), d) ∧
      ∀ type, ValidType type → c.SameAnswers type m d := by
  obtain ⟨m, d, hm, hd, h⟩ := Write.performAll_simulates c
    (R := fun m d => ∀ type, ValidType type →
      c.Mirrors {name | ':' ∉ name.toList} type m (d.entities type))
    (fun write hwrite m d => c.mirrors_perform separable_colonFree (hwithin write hwrite)
      (hreadable write hwrite))
    (m := {}) (d := {}) fun type _ => by
      have hentities : DirectCache.entities {} type = ∅ := by simp [DirectCache.entities]
      rw [hentities]
      exact c.mirrors_empty
  exact ⟨m, d, hm, hd, fun type htype => (h type htype).sameAnswers c htype⟩

/-- A batch with a repeated id, one item of it without attributes, and an eviction. -/
def repeatedIdHistory : List Write :=
  [.merge "server"
    [(({ id := "s:1" } : Entity).withAttribute "cores" (.number (.integer 4))).listed,
      (({ id := "s:1" } : Entity).withRelationship "rack" ["r:1"]).listed],
    .evict "server" ["s:2"]]

/-- The two caches answer alike after that history. -/
theorem performAll_sameAnswers_repeatedId :
    ∃ m d, Action.on Store.Memory.serve
        (Write.performAll (KeyValueCache.mk "cache").writer repeatedIdHistory) {} = (.ok (), m) ∧
      DirectCache.on (Write.performAll DirectCache.writer repeatedIdHistory) {} = (.ok (), d) ∧
      ∀ type, ValidType type → (KeyValueCache.mk "cache").SameAnswers type m d := by
  refine performAll_sameAnswers _ ?_ ?_
  · simp [repeatedIdHistory, Write.Within, ValidType, Entity.withAttribute,
      Entity.withRelationship]
  · have hcores : ((∅ : Attributes).insert "cores" (.number (.integer 4))).toList =
        [("cores", .number (.integer 4))] := rfl
    have hreadable :
        Attributes.Readable ((∅ : Attributes).insert "cores" (.number (.integer 4))) := by
      constructor <;> rw [hcores]
      · decide
      · exact ⟨trivial, trivial⟩
      · exact ⟨⟨by decide, by decide⟩, trivial⟩
    have hempty : Attributes.Readable ∅ := ⟨by decide, trivial, trivial⟩
    simp [repeatedIdHistory, Write.Readable, Entity.withAttribute, Entity.withRelationship,
      hreadable, hempty]

end KeyValueCache

end EntityCache
