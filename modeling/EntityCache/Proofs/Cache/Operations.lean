import EntityCache.Proofs.Cache.Keys
import EntityCache.Proofs.Store.Memory

/-!
# The operations of a cache on a store in memory

`Action.on` carries an operation out on a store.  On a store in memory no request fails, so every
operation on a valid type answers, and this module says what: a lookup reads every id by itself
(`stored`), a merge puts the entries of its items one after another and adds to the two sets of the
type, an eviction removes the keys that the index makes known.

Nothing here depends on which keys are the same; that is the subject of `Keys`.
-/

namespace EntityCache

namespace KeyValueCache

/-! ## Actions on a store -/

section Action

variable {σ α β : Type} (serve : (r : Store.Request) → σ → r.Reply × σ)

/-- Carries out an action on a store: its result, and the store afterwards. -/
def Action.on (a : Action α) (s : σ) : Except DomainError α × σ := Program.run serve a.run s

@[simp] theorem Action.on_pure (x : α) (s : σ) :
    Action.on serve (pure x) s = (.ok x, s) := rfl

@[simp] theorem Action.on_mk_pure (x : Except DomainError α) (s : σ) :
    Action.on serve (ExceptT.mk (pure x)) s = (x, s) := rfl

/-- An action that is followed by another: the second sees the answer and the store of the first. -/
theorem Action.on_bind (a : Action α) (f : α → Action β) (s : σ) :
    Action.on serve (a >>= f) s =
      match Action.on serve a s with
      | (.ok x, s) => Action.on serve (f x) s
      | (.error e, s) => (.error e, s) := by
  show (Program.bind (ExceptT.run a) (ExceptT.bindCont f)).run serve s = _
  rw [Program.run_bind, Action.on]
  match a.run.run serve s with
  | (.ok x, s) => rfl
  | (.error e, s) => rfl

/-- After an operation that succeeds the next goes on from what it has left. -/
theorem Action.on_bind_ok {a : Action α} {s s' : σ} {x : α} (f : α → Action β)
    (h : Action.on serve a s = (.ok x, s')) :
    Action.on serve (a >>= f) s = Action.on serve (f x) s' := by
  rw [Action.on_bind, h]

/-- Where both have answered, so has the first. -/
theorem Action.exists_of_on_bind_ok {a : Action α} {f : α → Action β} {s s' : σ} {y : β}
    (h : Action.on serve (a >>= f) s = (.ok y, s')) :
    ∃ x s₁, Action.on serve a s = (.ok x, s₁) ∧ Action.on serve (f x) s₁ = (.ok y, s') := by
  rw [Action.on_bind] at h
  match hfirst : Action.on serve a s with
  | (.ok x, s₁) => exact ⟨x, s₁, rfl, by rwa [hfirst] at h⟩
  | (.error e, s₁) =>
    rw [hfirst] at h
    cases h

/-- A store in memory answers every request. -/
@[simp] theorem on_call (r : Store.Request) (m : Store.Memory) :
    Action.on Store.Memory.serve (call r) m = (.ok (m.answer r).1, (m.answer r).2) := rfl

/-- A valid type passes. -/
@[simp] theorem on_validate {type : String} (h : ValidType type) (s : σ) :
    Action.on serve (validate type) s = (.ok (), s) := by
  rw [validate, if_pos h]
  rfl

/-- An invalid type is refused before the store is asked. -/
theorem on_validate_of_not {type : String} (h : ¬ValidType type) (s : σ) :
    Action.on serve (validate type) s = (.error (.invalidType type), s) := by
  rw [validate, if_neg h]
  rfl

/-- What begins with a check of the type fails on a type that is not valid. -/
theorem Action.on_validate_bind {type : String} (h : ¬ValidType type) (f : Unit → Action α)
    (s : σ) : Action.on serve (validate type >>= f) s = (.error (.invalidType type), s) := by
  rw [Action.on_bind, on_validate_of_not serve h]

end Action

variable (c : KeyValueCache) {m : Store.Memory} {type : String}

/-! ## Reading -/

/-- The relationships whose slots are not empty, with their texts. -/
def present (known : List String) (f : String → Option String) : List (String × String) :=
  known.filterMap fun name => (f name).map (name, ·)

/-- The relationships of texts, in order. -/
def decodeNamed : List (String × String) → Except DomainError (List (String × Names))
  | [] => .ok []
  | (name, text) :: rest =>
    match Names.decode? text with
    | none => .error unreadable
    | some ids => (decodeNamed rest).map ((name, ids) :: ·)

/-- Relationships are read from the slots that are not empty. -/
theorem decodeRelationships_map (known : List String) (f : String → Option String) :
    decodeRelationships known (known.map f) = decodeNamed (present known f) := by
  induction known with
  | nil => rfl
  | cons name known ih =>
    rw [List.map_cons, present, List.filterMap_cons, ← present]
    cases f name with
    | none =>
      rw [decodeRelationships, ih]
      rfl
    | some text =>
      rw [decodeRelationships, ih]
      rfl

/-- The entity of an id in a store, as the index of the type makes it known. -/
def stored (m : Store.Memory) (type id : String) : Except DomainError (Option Entity) :=
  decodeEntity (m.members (c.indexKey type)) id
    ((c.entityKeys (m.members (c.indexKey type)) type id).map (m.strings[·]?))

/-- Reads ids one after another, leaves out what is absent and stops at the first failure. -/
def readEach (read : String → Except DomainError (Option Entity)) :
    List String → Except DomainError (List Entity)
  | [] => .ok []
  | id :: ids =>
    match read id with
    | .error e => .error e
    | .ok none => readEach read ids
    | .ok (some entity) => (readEach read ids).map (entity :: ·)

/-- Where every id can be read, those that are there are found in the order asked for. -/
theorem readEach_ok {read : String → Except DomainError (Option Entity)}
    {found : String → Option Entity} {ids : List String}
    (h : ∀ id ∈ ids, read id = .ok (found id)) :
    readEach read ids = .ok (ids.filterMap found) := by
  induction ids with
  | nil => rfl
  | cons id ids ih =>
    have ih := ih fun other hother => h other (by simp [hother])
    rw [readEach, h id (by simp), List.filterMap_cons]
    cases found id with
    | none => exact ih
    | some entity =>
      rw [ih]
      rfl

/-- The slots of several ids are those of each id, one after another. -/
theorem decodeEntities_flatMap (known : List String) (f : String → Option String)
    (ids : List String) :
    decodeEntities known ids ((ids.flatMap (c.entityKeys known type)).map f) =
      readEach (fun id => decodeEntity known id ((c.entityKeys known type id).map f)) ids := by
  induction ids with
  | nil => rfl
  | cons id ids ih =>
    have hlength : ((c.entityKeys known type id).map f).length = known.length + 1 := by
      simp [entityKeys]
    rw [List.flatMap_cons, List.map_append, decodeEntities, readEach,
      List.take_left' hlength, List.drop_left' hlength]
    match decodeEntity known id ((c.entityKeys known type id).map f) with
    | .error e => rfl
    | .ok none => exact ih
    | .ok (some entity) => exact congrArg (Except.map (entity :: ·)) ih

/-- Looking ids up reads each distinct one by itself, and changes nothing. -/
theorem on_getAllByIds (htype : ValidType type) (ids : List String) (m : Store.Memory) :
    Action.on Store.Memory.serve (c.getAllByIds type ids) m =
      (readEach (c.stored m type) (distinct ids), m) := by
  rw [getAllByIds, Action.on_bind_ok _ _ (on_validate _ htype m)]
  by_cases hempty : (distinct ids).isEmpty
  · rw [if_pos hempty, Action.on_pure, List.isEmpty_iff.1 hempty]
    rfl
  · rw [if_neg hempty, Action.on_bind_ok _ _ (on_call _ m), Action.on_bind_ok _ _ (on_call _ _)]
    simp only [Store.Memory.answer, List.length_map, ne_eq, not_true_eq_false, if_false]
    rw [Action.on_mk_pure, decodeEntities_flatMap]
    rfl

/-- The ids of a type are its members. -/
theorem on_getIdentifiers (htype : ValidType type) (m : Store.Memory) :
    Action.on Store.Memory.serve (c.getIdentifiers type) m =
      (.ok (m.members (c.membersKey type)), m) := by
  rw [getIdentifiers, Action.on_bind_ok _ _ (on_validate _ htype m), on_call]
  rfl

/-- All entities are those of the members. -/
theorem on_getAll (htype : ValidType type) (m : Store.Memory) :
    Action.on Store.Memory.serve (c.getAll type) m =
      (readEach (c.stored m type) (m.members (c.membersKey type)), m) := by
  have hnodup : (m.members (c.membersKey type)).Nodup :=
    (m.members_sorted _).imp String.ne_of_lt
  rw [getAll, Action.on_bind_ok _ _ (c.on_getIdentifiers htype m), c.on_getAllByIds htype,
    distinct_eq_self hnodup]

/-- Looking one id up reads it. -/
theorem on_get (htype : ValidType type) (id : String) (m : Store.Memory) :
    Action.on Store.Memory.serve (c.reader.get type id) m = (c.stored m type id, m) := by
  have hone : distinct [id] = [id] := distinct_eq_self (by simp)
  have hmany : Action.on Store.Memory.serve (c.reader.getAllByIds type [id]) m =
      (readEach (c.stored m type) [id], m) := by
    rw [← hone]
    exact c.on_getAllByIds htype [id] m
  rw [Reader.get, Action.on_bind, hmany, readEach]
  match c.stored m type id with
  | .error e => rfl
  | .ok none => rfl
  | .ok (some entity) => rfl

/-! ## Merging -/

/-- A name is among those of a batch if one of its items uses it. -/
theorem mem_relationshipNames {items : List Item} {name : String} :
    name ∈ relationshipNames items ↔ ∃ item ∈ items, name ∈ item.relationships := by
  -- both folds only add names: first over one item's relationships, then over the items
  have hitem (all : Names) (item : Item) :
      name ∈ item.relationships.foldl (fun all name _ => all.insert name) all ↔
        name ∈ all ∨ name ∈ item.relationships := by
    rw [Std.ExtTreeMap.foldl_eq_foldl_keys, ← Std.ExtTreeMap.mem_keys]
    induction item.relationships.keys generalizing all with
    | nil => simp
    | cons key keys ih =>
      rw [List.foldl_cons, ih, Std.ExtTreeSet.mem_insert, compare_eq_iff_eq, List.mem_cons]
      tauto
  have hitems (all : Names) :
      name ∈ items.foldl
          (fun all item => item.relationships.foldl (fun all name _ => all.insert name) all) all ↔
        name ∈ all ∨ ∃ item ∈ items, name ∈ item.relationships := by
    induction items generalizing all with
    | nil => simp
    | cons item items ih =>
      rw [List.foldl_cons, ih, hitem, List.exists_mem_cons_iff, or_assoc]
  rw [relationshipNames, Std.ExtTreeSet.mem_toList, hitems]
  simp

/-- An item writes its attributes, unless it has none, and each of its relationships. -/
theorem mem_entries {item : Item} {key text : String} :
    (key, text) ∈ c.entries type item ↔
      (item.attributes.isEmpty = false ∧ key = c.attributesKey type item.id ∧
        text = Attributes.encode item.fields) ∨
      ∃ name ids, item.relationships[name]? = some ids ∧
        key = c.relationshipKey type item.id name ∧ text = Names.encode ids := by
  rw [entries, List.mem_append]
  refine or_congr ?_ ?_
  -- attributes are written only if there are any, relationships in any case
  · split
    case isTrue h => simp [h]
    case isFalse h => simp [h]
  · simp only [List.mem_map, Prod.mk.injEq, Prod.exists, item.links_perm.mem_iff,
      Std.ExtTreeMap.mem_toList_iff_getElem?_eq_some]
    constructor
    · rintro ⟨name, ids, h, hkey, htext⟩
      exact ⟨name, ids, h, hkey.symm, htext.symm⟩
    · rintro ⟨name, ids, h, hkey, htext⟩
      exact ⟨name, ids, h, hkey.symm, htext.symm⟩

/-- Items write keys of their attributes and of their relationships. -/
theorem exists_item_of_mem_keys {items : List Item} {key : String}
    (h : key ∈ (items.flatMap (c.entries type)).map (·.1)) :
    ∃ item ∈ items, key = c.attributesKey type item.id ∨
      ∃ name ∈ item.relationships, key = c.relationshipKey type item.id name := by
  obtain ⟨⟨key, text⟩, hentries, rfl⟩ := List.mem_map.1 h
  obtain ⟨item, hitem, hentry⟩ := List.mem_flatMap.1 hentries
  refine ⟨item, hitem, ?_⟩
  rcases c.mem_entries.1 hentry with ⟨-, hkey, -⟩ | ⟨name, ids, hids, hkey, -⟩
  · exact .inl hkey
  · exact .inr ⟨name, Std.ExtTreeMap.isSome_getElem?_iff_mem.1 (by rw [hids]; rfl), hkey⟩

/-- What a merge of items of a type makes of a store. -/
structure Merged (type : String) (items : List Item) (m m' : Store.Memory) : Prop where
  strings : m'.strings = putEntries m.strings (items.flatMap (c.entries type))
  sets : ∀ key x, x ∈ m'.setOf key ↔ x ∈ m.setOf key ∨
    (key = c.indexKey type ∧ x ∈ relationshipNames items) ∨
    (key = c.membersKey type ∧ ∃ item ∈ items, item.isBlank = false ∧ item.id = x)

/-- Blank items have no names to add and no entries to write. -/
theorem nothing_of_blank (type : String) {items : List Item}
    (h : ∀ item ∈ items, item.isBlank = true) :
    relationshipNames items = [] ∧ items.flatMap (c.entries type) = [] := by
  -- a blank item has neither attributes nor relationships, hence no entries and no names
  have hblank : ∀ item ∈ items, item.attributes = ∅ ∧ item.relationships = ∅ := by
    intro item hitem
    simpa only [Entity.isBlank, Bool.and_eq_true, Std.ExtTreeMap.isEmpty_iff] using h item hitem
  constructor
  · rw [List.eq_nil_iff_forall_not_mem]
    intro name hname
    obtain ⟨item, hitem, hmem⟩ := mem_relationshipNames.1 hname
    simp [(hblank item hitem).2] at hmem
  · rw [List.flatMap_eq_nil_iff]
    intro item hitem
    have hlinks : item.links = [] := by
      have hperm := item.links_perm
      rw [(hblank item hitem).2] at hperm
      exact hperm.eq_nil
    simp [entries, (hblank item hitem).1, hlinks]

/-- Blank items write nothing. -/
theorem Merged.of_blank {items : List Item} (h : ∀ item ∈ items, item.isBlank = true) :
    c.Merged type items m m := by
  obtain ⟨hnames, hentries⟩ := c.nothing_of_blank type h
  constructor
  · rw [hentries]
    rfl
  · intro key x
    have hmembers : ¬∃ item ∈ items, item.isBlank = false ∧ item.id = x := by
      rintro ⟨item, hitem, hfalse, -⟩
      simp [h item hitem] at hfalse
    simp [hnames, hmembers]

/-- A merge answers, and leaves the store that `Merged` describes. -/
theorem on_mergeAll (htype : ValidType type) (items : List Item) (m : Store.Memory) :
    ∃ m', Action.on Store.Memory.serve (c.mergeAll type items) m = (.ok (), m') ∧
      c.Merged type items m m' := by
  rw [mergeAll, Action.on_bind_ok _ _ (on_validate _ htype m)]
  by_cases hempty : (items.filter (!·.isBlank)).isEmpty
  · rw [if_pos hempty]
    refine ⟨m, rfl, .of_blank c ?_⟩
    intro item hitem
    rw [List.isEmpty_iff, List.filter_eq_nil_iff] at hempty
    simpa using hempty item hitem
  rw [if_neg hempty]
  -- the strings and the members are written in the same way whether or not there is a name
  have htail (m₁ : Store.Memory) (hstrings : m₁.strings = m.strings)
      (hsets : ∀ key x, x ∈ m₁.setOf key ↔
        x ∈ m.setOf key ∨ (key = c.indexKey type ∧ x ∈ relationshipNames items)) :
      ∃ m', Action.on Store.Memory.serve (do
          call (.mset (items.flatMap (c.entries type)))
          let _ ← call (.sadd (c.membersKey type) ((items.filter (!·.isBlank)).map (·.id)))) m₁ =
        (.ok (), m') ∧ c.Merged type items m m' := by
    refine ⟨_, by
      rw [Action.on_bind_ok _ _ (on_call _ m₁), Action.on_bind_ok _ _ (on_call _ _)]
      rfl, ?_, fun key x => ?_⟩
    · rw [Store.Memory.strings_sadd, Store.Memory.answer_mset, hstrings]
    · rw [Store.Memory.mem_setOf_sadd, Store.Memory.answer_mset]
      show x ∈ m₁.setOf key ∨ _ ↔ _
      rw [hsets, or_assoc]
      simp only [List.mem_map, List.mem_filter, Bool.not_eq_true', and_assoc]
  by_cases hnames : (relationshipNames items).isEmpty
  · have hno : (!(relationshipNames items).isEmpty) = true ↔ False := by simp [hnames]
    simp only [hno, if_false]
    apply htail m rfl
    intro key x
    simp [List.isEmpty_iff.1 hnames]
  · have hyes : (!(relationshipNames items).isEmpty) = true ↔ True := by simp [hnames]
    simp only [hyes, if_true]
    rw [Action.on_bind_ok _ _ (on_call _ m)]
    exact htail _ (Store.Memory.strings_sadd _ m) fun key x => Store.Memory.mem_setOf_sadd

/-! ## Evicting -/

/-- The keys that an eviction removes. -/
def evictedKeys (m : Store.Memory) (type : String) (ids : List String) : List String :=
  ids.flatMap fun id =>
    (m.members (c.indexKey type)).map (c.relationshipKey type id) ++ [c.attributesKey type id]

/-- The keys that go with an id: its attributes, and its relationships under every name of the
index. -/
theorem mem_evictedKeys {ids : List String} {key : String} :
    key ∈ c.evictedKeys m type ids ↔ ∃ id ∈ ids,
      key = c.attributesKey type id ∨
        ∃ name ∈ m.setOf (c.indexKey type), key = c.relationshipKey type id name := by
  simp only [evictedKeys, List.mem_flatMap, List.mem_append, List.mem_map, List.mem_singleton,
    Store.Memory.mem_members, @eq_comm _ key]
  refine exists_congr fun id => and_congr_right fun _ => or_comm

/-- What an eviction of ids of a type makes of a store. -/
structure Evicted (type : String) (ids : List String) (m m' : Store.Memory) : Prop where
  strings : ∀ key : String,
    m'.strings[key]? = if key ∈ c.evictedKeys m type ids then none else m.strings[key]?
  sets : ∀ key x, x ∈ m'.setOf key ↔
    (key ∉ c.evictedKeys m type ids ∧ x ∈ m.setOf key) ∧ ¬(key = c.membersKey type ∧ x ∈ ids)

/-- An eviction answers, and leaves the store that `Evicted` describes. -/
theorem on_evictAll (htype : ValidType type) (ids : List String) (m : Store.Memory) :
    ∃ m', Action.on Store.Memory.serve (c.evictAll type ids) m = (.ok (), m') ∧
      c.Evicted type ids m m' := by
  rw [evictAll, Action.on_bind_ok _ _ (on_validate _ htype m)]
  by_cases hempty : (distinct ids).isEmpty
  · rw [if_pos hempty]
    rw [List.isEmpty_iff, distinct_eq_nil] at hempty
    subst hempty
    exact ⟨m, rfl, fun key => by simp [evictedKeys], fun key x => by simp [evictedKeys]⟩
  rw [if_neg hempty, Action.on_bind_ok _ _ (on_call _ m), Action.on_bind_ok _ _ (on_call _ _),
    Action.on_bind_ok _ _ (on_call _ _)]
  -- a repeated id names the same keys again
  have hkeys (key : String) : key ∈ c.evictedKeys m type (distinct ids) ↔
      key ∈ c.evictedKeys m type ids := by
    simp only [mem_evictedKeys, mem_distinct]
  refine ⟨_, rfl, ?_, ?_⟩
  · intro key
    rw [Store.Memory.strings_srem]
    show ((m.answer (.del (c.evictedKeys m type (distinct ids)))).2.strings[key]?) = _
    rw [Store.Memory.getElem?_strings_del, if_congr (hkeys key) rfl rfl]
  · intro key x
    rw [Store.Memory.mem_setOf_srem, mem_distinct]
    show (x ∈ (m.answer (.del (c.evictedKeys m type (distinct ids)))).2.setOf key ∧ _) ↔ _
    rw [Store.Memory.setOf_del, if_congr (hkeys key) rfl rfl]
    by_cases hkey : key ∈ c.evictedKeys m type ids
    · simp [hkey]
    · simp [hkey]

end KeyValueCache

end EntityCache
