import EntityCache.Proofs.Cache.Operations
import EntityCache.Proofs.Store.Locality

/-!
# The requests of an operation

The requests that an operation on a type can make are of a few kinds, whatever the store replies to
them: a read makes those of `Looks`, a merge those of `Merges`, an eviction those of `Evicts`, and
all of these are of `Makes`.  What is to hold of every request of an operation is then shown once
for each kind: it names only keys of the type (`Makes.keys`), it changes nothing if it is one of a
read (`Looks.reads`), and it adds something if it adds to a set (`Makes.adds`).
-/

namespace EntityCache

namespace KeyValueCache

/-! ## What an action asks -/

section Actions

variable {α β : Type} {P Q : Store.Request → Prop}

/-- Every request that the action can make, whatever the replies, has the property. -/
def Action.Asks (P : Store.Request → Prop) (a : Action α) : Prop := Program.Asks P a.run

/-- Operations in turn ask what either asks. -/
theorem Action.Asks.bind {a : Action α} {f : α → Action β} (ha : a.Asks P)
    (hf : ∀ x, (f x).Asks P) : (a >>= f).Asks P := by
  refine Program.Asks.bind ha fun result => ?_
  match result with
  | .ok x => exact hf x
  | .error e => trivial

/-- Operations that ask only such requests ask only what these are. -/
theorem Action.Asks.mono {a : Action α} (ha : a.Asks P) (h : ∀ r, P r → Q r) : a.Asks Q :=
  Program.Asks.mono ha h

theorem asks_pure (x : α) : Action.Asks P (pure x) := trivial

/-- What has been worked out without the store asks nothing. -/
theorem asks_mk_pure (x : Except DomainError α) : Action.Asks P (ExceptT.mk (pure x)) := trivial

/-- A failure asks nothing. -/
theorem asks_throw (e : DomainError) : Action.Asks P (throw e : Action α) := trivial

/-- A call asks its request. -/
theorem asks_call {r : Store.Request} (h : P r) : (call r).Asks P := ⟨h, fun _ => trivial⟩

/-- The validity of a type is known without the store. -/
theorem asks_validate (type : String) : (validate type).Asks P := by
  rw [validate]
  split
  · exact asks_pure ()
  · exact asks_throw _

end Actions

variable (c : KeyValueCache) {type : String} {r : Store.Request}

/-! ## Kinds of requests -/

/-- A request of a read of the type. -/
inductive Looks (type : String) : Store.Request → Prop
  | index : Looks type (.smembers (c.indexKey type))
  | members : Looks type (.smembers (c.membersKey type))
  | entities (known ids : List String) : Looks type (.mget (ids.flatMap (c.entityKeys known type)))

/-- A request of an operation on the type. -/
inductive Makes (type : String) : Store.Request → Prop
  | look {r : Store.Request} (h : c.Looks type r) : Makes type r
  | name {names : List String} (h : names ≠ []) : Makes type (.sadd (c.indexKey type) names)
  | put (items : List Item) : Makes type (.mset (items.flatMap (c.entries type)))
  | enter {ids : List String} (h : ids ≠ []) : Makes type (.sadd (c.membersKey type) ids)
  | delete (known ids : List String) : Makes type (.del (ids.flatMap fun id =>
      known.map (c.relationshipKey type id) ++ [c.attributesKey type id]))
  | leave (ids : List String) : Makes type (.srem (c.membersKey type) ids)

/-- A request of a merge of these items. -/
inductive Merges (type : String) (items : List Item) : Store.Request → Prop
  | name (h : relationshipNames items ≠ []) :
    Merges type items (.sadd (c.indexKey type) (relationshipNames items))
  | put : Merges type items (.mset (items.flatMap (c.entries type)))
  | enter (h : (items.filter (!·.isBlank)).map (·.id) ≠ []) :
    Merges type items (.sadd (c.membersKey type) ((items.filter (!·.isBlank)).map (·.id)))

/-- A request of an eviction of these ids. -/
inductive Evicts (type : String) (ids : List String) : Store.Request → Prop
  | look : Evicts type ids (.smembers (c.indexKey type))
  | delete (known : List String) : Evicts type ids (.del ((distinct ids).flatMap fun id =>
      known.map (c.relationshipKey type id) ++ [c.attributesKey type id]))
  | leave : Evicts type ids (.srem (c.membersKey type) (distinct ids))

variable {c}

/-- A merge makes its requests on the keys of its type. -/
theorem Merges.makes {items : List Item} (h : c.Merges type items r) : c.Makes type r := by
  cases h with
  | name h => exact .name h
  | put => exact .put items
  | enter h => exact .enter h

/-- An eviction makes its requests on the keys of its type. -/
theorem Evicts.makes {ids : List String} (h : c.Evicts type ids r) : c.Makes type r := by
  cases h with
  | look => exact .look .index
  | delete known => exact .delete known _
  | leave => exact .leave _

/-- A read changes nothing. -/
theorem Looks.reads (h : c.Looks type r) : r.Reads := by
  cases h <;> trivial

/-- Something is added whenever a request adds to a set. -/
theorem Makes.adds (h : c.Makes type r) : r.Adds := by
  rintro key rfl
  cases h with
  | look h => cases h
  | name h => exact h rfl
  | enter h => exact h rfl

/-- Every key that a request names is a key of the type. -/
theorem Makes.keys (h : c.Makes type r) {key : String} (hkey : key ∈ r.keys) :
    ∃ suffix, key = c.typeKey type suffix := by
  have hattributes (id : String) : ∃ suffix, c.attributesKey type id = c.typeKey type suffix :=
    ⟨_, c.attributesKey_eq type id⟩
  have hrelationship (id name : String) :
      ∃ suffix, c.relationshipKey type id name = c.typeKey type suffix :=
    ⟨_, c.relationshipKey_eq type id name⟩
  -- each request of the cache names keys of the four kinds, which are all of the type
  cases h with
  | look h =>
    cases h with
    | index => exact ⟨_, (List.mem_singleton.1 hkey).trans (c.indexKey_eq type)⟩
    | members => exact ⟨_, (List.mem_singleton.1 hkey).trans (c.membersKey_eq type)⟩
    | entities known ids =>
      obtain ⟨id, -, hid⟩ := List.mem_flatMap.1 hkey
      rcases List.mem_cons.1 hid with rfl | hname
      · exact hattributes id
      · obtain ⟨name, -, rfl⟩ := List.mem_map.1 hname
        exact hrelationship id name
  | name _ => exact ⟨_, (List.mem_singleton.1 hkey).trans (c.indexKey_eq type)⟩
  | put items =>
    obtain ⟨item, -, rfl | ⟨name, -, rfl⟩⟩ := c.exists_item_of_mem_keys hkey
    · exact hattributes item.id
    · exact hrelationship item.id name
  | enter _ => exact ⟨_, (List.mem_singleton.1 hkey).trans (c.membersKey_eq type)⟩
  | delete known ids =>
    obtain ⟨id, -, hid⟩ := List.mem_flatMap.1 hkey
    rcases List.mem_append.1 hid with hname | hid
    · obtain ⟨name, -, rfl⟩ := List.mem_map.1 hname
      exact hrelationship id name
    · obtain rfl := List.mem_singleton.1 hid
      exact hattributes id
  | leave _ => exact ⟨_, (List.mem_singleton.1 hkey).trans (c.membersKey_eq type)⟩

/-! ## Reads -/

/-- `getAllByIds` looks at keys of its type and changes none. -/
theorem asks_getAllByIds (type : String) (ids : List String) :
    Action.Asks (c.Looks type) (c.reader.getAllByIds type ids) := by
  show (c.getAllByIds type ids).Asks (c.Looks type)
  refine (asks_validate type).bind fun _ => ?_
  simp only
  split
  · exact asks_pure []
  · refine (asks_call .index).bind fun known => ?_
    refine (asks_call (.entities known _)).bind fun slots => ?_
    split
    · exact asks_throw _
    · exact asks_mk_pure _

theorem asks_getIdentifiers (type : String) :
    Action.Asks (c.Looks type) (c.reader.getIdentifiers type) :=
  (asks_validate type).bind fun _ => asks_call .members

/-- `getAll` looks at keys of its type and changes none. -/
theorem asks_getAll (type : String) : Action.Asks (c.Looks type) (c.reader.getAll type) :=
  (asks_getIdentifiers type).bind (asks_getAllByIds type)

theorem asks_get (type id : String) : Action.Asks (c.Looks type) (c.reader.get type id) :=
  (asks_getAllByIds type [id]).bind fun _ => asks_pure _

/-- A pattern that does not compile is refused before any request. -/
theorem asks_filterIdentifiers (type glob : String) :
    Action.Asks (c.Looks type) (c.reader.filterIdentifiers type glob) :=
  (asks_mk_pure (Glob.compile glob)).bind fun _ =>
    (asks_getIdentifiers type).bind fun _ => asks_pure _

/-! ## Writes -/

/-- The requests of a merge, in the order in which they are made. -/
theorem merges_mergeAll (type : String) (items : List Item) :
    (c.mergeAll type items).Asks (c.Merges type items) := by
  refine (asks_validate type).bind fun _ => ?_
  simp only
  split
  · exact asks_pure ()
  case isFalse hwritten =>
    have hids : (items.filter (!·.isBlank)).map (·.id) ≠ [] := fun hnil =>
      hwritten (List.isEmpty_iff.2 (List.map_eq_nil_iff.1 hnil))
    -- the last two requests are the same with names for the index and without
    have hstrings : Action.Asks (c.Merges type items) (do
        call (.mset (items.flatMap (c.entries type)))
        let _ ← call (.sadd (c.membersKey type) ((items.filter (!·.isBlank)).map (·.id)))) :=
      (asks_call .put).bind fun _ => (asks_call (.enter hids)).bind fun _ => asks_pure ()
    split
    case isTrue hnames =>
      refine (asks_call (.name fun hnil => ?_)).bind fun _ => hstrings
      rw [hnil] at hnames
      cases hnames
    case isFalse => exact hstrings

/-- A merge keeps to the keys of its type. -/
theorem asks_mergeAll (type : String) (items : List Item) :
    (c.mergeAll type items).Asks (c.Makes type) :=
  (merges_mergeAll type items).mono fun _ h => h.makes

/-- The requests of an eviction, in the order in which they are made. -/
theorem evicts_evictAll (type : String) (ids : List String) :
    (c.evictAll type ids).Asks (c.Evicts type ids) := by
  refine (asks_validate type).bind fun _ => ?_
  simp only
  split
  · exact asks_pure ()
  · refine (asks_call .look).bind fun known => ?_
    refine (asks_call (.delete known)).bind fun _ => ?_
    exact (asks_call .leave).bind fun _ => asks_pure ()

/-- An eviction keeps to the keys of its type. -/
theorem asks_evictAll (type : String) (ids : List String) :
    (c.evictAll type ids).Asks (c.Makes type) :=
  (evicts_evictAll type ids).mono fun _ h => h.makes

end KeyValueCache

end EntityCache
