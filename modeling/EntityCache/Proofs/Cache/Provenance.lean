import EntityCache.Proofs.Cache.Exchanges
import EntityCache.Proofs.Cache.Layout
import EntityCache.Proofs.Cache.Reached
import EntityCache.Proofs.Store.Record

/-!
# Where what a lookup finds comes from

A lookup asks for the names in the index and then for the strings of its ids, and merges and
evictions may come between.  What it finds may then be out of date, and its parts may come from
several merges.  But each part is a whole: the attributes are those that one item has been written
with, and each relationship is the one of one item (`Sourced`), and the items have been written for
the id before the lookup has asked for its strings (`Earlier`).

This holds as every string in the store has been put by a merge under the key of the part that it
is the text of (`Call.Requests.put`), and no other part has this key if the names of relationships
have no colon.
-/

namespace EntityCache

open Store (Backing Calls Content)

namespace KeyValueCache

variable (c : KeyValueCache) {type : String}

/-! ## Calls on one type -/

/-- A call of a cache on one type. -/
inductive Call where
  | merge (items : List Item)
  | evict (ids : List String)
  | read (ids : List String)

namespace Call

variable {c} {call : Call} {r : Store.Request}

variable (c) in
/-- A call as store calls.  It gives the entities that a read has found, and nothing for a write. -/
def program (type : String) : Call → Calls (Except DomainError (Option (List Entity)))
  | merge items =>
    (do c.writer.mergeAll type items; return none : Action (Option (List Entity))).run
  | evict ids =>
    (do c.writer.evictAll type ids; return none : Action (Option (List Entity))).run
  | read ids =>
    (do return some (← c.reader.getAllByIds type ids) : Action (Option (List Entity))).run

variable (c) in
/-- A request of the call. -/
def Requests (type : String) : Call → Store.Request → Prop
  | merge items => c.Merges type items
  | evict ids => c.Evicts type ids
  | read _ => c.Looks type

/-- A call makes only the requests of its kind. -/
theorem asks_program (type : String) (call : Call) :
    (call.program c type).Asks (call.Requests c type) := by
  cases call with
  | merge items => exact Action.Asks.bind (merges_mergeAll type items) fun _ => asks_pure none
  | evict ids => exact Action.Asks.bind (evicts_evictAll type ids) fun _ => asks_pure none
  | read ids => exact Action.Asks.bind (asks_getAllByIds type ids) fun _ => asks_pure _

/-- The requests of a call are on keys of its type. -/
theorem Requests.makes (h : call.Requests c type r) : c.Makes type r := by
  cases call with
  | merge items => exact Merges.makes h
  | evict ids => exact Evicts.makes h
  | read ids => exact .look h

/-- Only a merge puts strings, and they are those of its items. -/
theorem Requests.put {key text : String} (h : call.Requests c type r) (held : Content)
    (htext : (held.answer r).2.strings key = some text) :
    (∃ items, call = .merge items ∧ (∃ entries, r = .mset entries) ∧
      ∃ item ∈ items, (key, text) ∈ c.entries type item) ∨ held.strings key = some text := by
  -- only the `mset` of a merge puts a text, and it puts entries of its items
  cases call with
  | read ids =>
    rw [Content.answer_of_reads (Looks.reads h)] at htext
    exact .inr htext
  | evict ids =>
    cases h with
    | look | leave => exact .inr htext
    | delete known =>
      right
      simp only [Content.answer, Content.remove] at htext
      split at htext
      · cases htext
      · exact htext
  | merge items =>
    cases h with
    | name | enter => exact .inr htext
    | put =>
      refine (Content.mem_or_of_strings_put htext).imp_left fun hentry => ?_
      exact ⟨items, rfl, ⟨_, rfl⟩, List.mem_flatMap.1 hentry⟩

/-- Only a merge adds names to the index, and they are those of its items. -/
theorem Requests.name {name : String} (h : call.Requests c type r) (htype : ValidType type)
    (held : Content) (hname : name ∈ (held.answer r).2.sets (c.indexKey type)) :
    (∃ items, call = .merge items ∧ ∃ item ∈ items, name ∈ item.relationships) ∨
      name ∈ held.sets (c.indexKey type) := by
  rcases (h.makes.careful.mem_index htype htype).1 hname with hbefore | ⟨-, hadded⟩
  · exact .inr hbefore
  left
  -- only the first request of a merge adds names
  cases call with
  | read ids => cases h <;> cases hadded
  | evict ids => cases h <;> cases hadded
  | merge items =>
    cases h with
    | name =>
      rw [namesAdded, if_pos rfl] at hadded
      exact ⟨items, rfl, mem_relationshipNames.1 hadded⟩
    | put => cases hadded
    | enter =>
      rw [namesAdded, if_neg (c.indexKey_ne_membersKey htype htype).symm] at hadded
      cases hadded

end Call

/-! ## What a reader makes of what it is given -/

variable {c} {E : Item → Prop} {id : String}

/-- Each part of an entity has been carried as a whole by an item of the entity's id: its attributes
are what is read for the attributes of one item, and each of its relationships is the one of an item
with the same name. -/
structure Sourced (E : Item → Prop) (e : Entity) : Prop where
  attributes : ∃ item, E item ∧ item.id = e.id ∧
    Attributes.decode? (Attributes.encode item.fields) = some e.attributes ∧
    (e.attributes = item.attributes ↔ item.attributes.Readable)
  relationships : ∀ (name : String) ids, e.relationships[name]? = some ids →
    ∃ item, E item ∧ item.id = e.id ∧ item.relationships[name]? = some ids

/-- An id is read as absent, or as an entity of this id with sources. -/
def ReadsSourced (E : Item → Prop) (id : String) (read : Except DomainError (Option Entity)) :
    Prop :=
  ∃ found, read = .ok found ∧ ∀ e ∈ found, e.id = id ∧ Sourced E e

/-- What may be merged: names of relationships without a colon, and attributes that a program can
hold, of no more levels than a value may have. -/
def Mergeable (item : Item) : Prop :=
  (∀ name ∈ item.relationships, ':' ∉ name.toList) ∧ item.attributes.Proper ∧
    item.attributes.depth ≤ Document.nestingLimit

/-- An id is read, as an entity with sources, if the strings under its keys are parts of items of
this id whose attributes are not too deep. -/
theorem readsSourced_decodeEntity {known : List String} (hsorted : known.Pairwise (· < ·))
    {f : String → Option String}
    (hattributes : ∀ text, f (c.attributesKey type id) = some text →
      ∃ item, E item ∧ item.id = id ∧ text = Attributes.encode item.fields)
    (hrelationships : ∀ name ∈ known, ∀ text, f (c.relationshipKey type id name) = some text →
      ∃ item ids, E item ∧ item.id = id ∧ item.relationships[name]? = some ids ∧
        text = Names.encode ids)
    (hproper : ∀ item, E item → item.attributes.Proper)
    (hdepth : ∀ item, E item → item.attributes.depth ≤ Document.nestingLimit) :
    ReadsSourced E id (decodeEntity known id ((c.entityKeys known type id).map f)) := by
  cases htext : f (c.attributesKey type id) with
  | none =>
    refine ⟨none, ?_, nofun⟩
    rw [entityKeys, List.map_cons, htext]
    rfl
  | some text =>
    obtain ⟨item, hitem, hid, rfl⟩ := hattributes text htext
    obtain ⟨attributes, hread⟩ := Option.isSome_iff_exists.1
      ((Attributes.isSome_decode?_encode item.fields_perm (hproper item hitem).numbersFit).2
        (hdepth item hitem))
    -- the relationships that are there
    obtain ⟨relationships, hthere⟩ := exists_map known fun name =>
      (f (c.relationshipKey type id name)).bind Names.decode?
    have hstrings : ∀ name ∈ known,
        f (c.relationshipKey type id name) = relationships[name]?.map Names.encode := by
      intro name hname
      rw [hthere, if_pos hname]
      cases hslot : f (c.relationshipKey type id name) with
      | none => rfl
      | some text =>
        obtain ⟨_, ids, -, -, -, rfl⟩ := hrelationships name hname text hslot
        rw [Option.bind_some, Names.decode?_encode, Option.map_some]
    have hknown : ∀ name ∈ relationships, name ∈ known := by
      intro name hname
      by_contra hnot
      rw [← Std.ExtTreeMap.isSome_getElem?_iff_mem, hthere, if_neg hnot] at hname
      cases hname
    refine ⟨_, c.decodeEntity_of_parts hsorted htext hread hstrings hknown, ?_⟩
    rintro e ⟨⟩
    refine ⟨rfl, ⟨item, hitem, hid, hread, ?_⟩, fun name ids hids => ?_⟩
    · rw [← Attributes.decode?_encode_iff item.fields_perm (hproper item hitem), hread,
        Option.some_inj]
    · have hname : name ∈ known :=
        hknown name (Std.ExtTreeMap.isSome_getElem?_iff_mem.1 (by rw [hids]; rfl))
      have hslot := hstrings name hname
      rw [hids, Option.map_some] at hslot
      obtain ⟨source, ids', hsource, hsourceId, hids', heq⟩ := hrelationships name hname _ hslot
      have hsame : ids = ids' := by
        have hdecode := congrArg Names.decode? heq
        rwa [Names.decode?_encode, Names.decode?_encode, Option.some_inj] at hdecode
      exact ⟨source, hsource, hsourceId, hsame ▸ hids'⟩

/-- So it is if these strings are written with items that may be merged. -/
theorem readsSourced_of_entries (htype : ValidType type) {known : List String}
    (hsorted : known.Pairwise (· < ·)) (hknown : ∀ name ∈ known, ':' ∉ name.toList)
    {f : String → Option String}
    (hstring : ∀ key text, f key = some text → ∃ item, E item ∧ (key, text) ∈ c.entries type item)
    (hmergeable : ∀ item, E item → Mergeable item) (id : String) :
    ReadsSourced E id (decodeEntity known id ((c.entityKeys known type id).map f)) := by
  refine c.readsSourced_decodeEntity hsorted (fun text htext => ?_) (fun name hname text htext => ?_)
    (fun item h => (hmergeable item h).2.1) fun item h => (hmergeable item h).2.2
  · obtain ⟨item, hitem, hentry⟩ := hstring _ _ htext
    rcases c.mem_entries.1 hentry with ⟨-, hkey, rfl⟩ | ⟨name, ids, -, hkey, -⟩
    · exact ⟨item, hitem, ((c.attributesKey_inj htype htype).1 hkey).2.symm, rfl⟩
    · exact absurd hkey (c.attributesKey_ne_relationshipKey htype htype)
  · obtain ⟨item, hitem, hentry⟩ := hstring _ _ htext
    rcases c.mem_entries.1 hentry with ⟨-, hkey, -⟩ | ⟨name', ids, hids, hkey, rfl⟩
    · exact absurd hkey.symm (c.attributesKey_ne_relationshipKey htype htype)
    -- the key tells id and name, as neither name holds a colon
    · have hnamed : name' ∈ item.relationships :=
        Std.ExtTreeMap.isSome_getElem?_iff_mem.1 (by rw [hids]; rfl)
      obtain ⟨-, rfl, rfl⟩ := (c.relationshipKey_inj separable_colonFree htype htype
        (hknown name hname) ((hmergeable item hitem).1 name' hnamed)).1 hkey
      exact ⟨item, ids, hitem, rfl, hids, rfl⟩

/-- Of the ids some are found, each at most once, as entities with sources. -/
structure Found (E : Item → Prop) (ids : List String) (entities : List Entity) : Prop where
  once : (entities.map (·.id)).Nodup
  requested : ∀ e ∈ entities, e.id ∈ ids
  sourced : ∀ e ∈ entities, Sourced E e

/-- Where every id is read as an entity with sources or as absent, so are several ids. -/
theorem found_readEach {read : String → Except DomainError (Option Entity)}
    (h : ∀ id, ReadsSourced E id (read id)) (ids : List String) :
    ∃ entities, readEach read (distinct ids) = .ok entities ∧ Found E ids entities := by
  choose found hread hfound using h
  refine ⟨_, readEach_ok fun id _ => hread id, ?_, fun e he => ?_, fun e he => ?_⟩
  · rw [List.map_filterMap]
    refine List.Nodup.filterMap (fun id id' other h h' => ?_) (nodup_distinct ids)
    obtain ⟨e, he, rfl⟩ := Option.map_eq_some_iff.1 h
    obtain ⟨e', he', hsame⟩ := Option.map_eq_some_iff.1 h'
    rw [← (hfound id e he).1, ← (hfound id' e' he').1, hsame]
  · obtain ⟨id, hid, he⟩ := List.mem_filterMap.1 he
    rw [(hfound id e he).1]
    exact mem_distinct.1 hid
  · obtain ⟨id, -, he⟩ := List.mem_filterMap.1 he
    exact (hfound id e he).2

/-! ## Calls side by side -/

section Runs

variable {calls : List Call} {turns : List Nat} {start : Backing}
  {past future : List (Nat × Exchange Store.Request.Reply)}

variable (c) in
/-- The record of calls that take turns on a store. -/
def callRecord (type : String) (turns : List Nat) (calls : List Call) (start : Backing) :
    List (Nat × Exchange Store.Request.Reply) :=
  Program.record Backing.serve turns (calls.map (·.program c type)) start

/-- Whatever is on record has been requested by the call in its place. -/
theorem exists_call {x : Nat × Exchange Store.Request.Reply}
    (h : x ∈ c.callRecord type turns calls start) :
    ∃ call, calls[x.1]? = some call ∧ call.Requests c type x.2.1 := by
  obtain ⟨p, hp⟩ := Program.exists_getElem?_of_record _ h
  obtain ⟨p', -, htakes⟩ := Program.takes_record Backing.serve (s := start) turns hp
  rw [List.getElem?_map] at hp
  obtain ⟨call, hcall, rfl⟩ := Option.map_eq_some_iff.1 hp
  exact ⟨call, hcall, htakes.asks (call.asks_program type) x.2 (Program.mem_inPlace.2 h)⟩

/-- A name in the index has been added by a merge, as a name of one of its items. -/
theorem exists_name (htype : ValidType type)
    (hpast : ∀ x ∈ past, x ∈ c.callRecord type turns calls start) {name : String}
    (hname : name ∈ (Content.empty.carryOut (past.map (·.2.1))).sets (c.indexKey type)) :
    ∃ items, .merge items ∈ calls ∧ ∃ item ∈ items, name ∈ item.relationships := by
  have hadded : (∃ x ∈ past, ∃ items, Call.merge items ∈ calls ∧
      ∃ item ∈ items, name ∈ item.relationships) ∨
      name ∈ Content.empty.sets (c.indexKey type) := by
    refine Content.exists_of_carryOut (S := fun held => name ∈ held.sets (c.indexKey type))
      (fun x hx held hname => ?_) hname
    obtain ⟨call, hcall, hrequests⟩ := exists_call (hpast x hx)
    refine (hrequests.name htype held hname).imp_left ?_
    rintro ⟨items, rfl, hnamed⟩
    exact ⟨items, List.mem_of_getElem? hcall, hnamed⟩
  rcases hadded with ⟨-, -, hadded⟩ | hempty
  · exact hadded
  · simp [Content.empty] at hempty

/-- An item has been written before the call in a place looks entities up: it is one of a merge that
has put its strings by then. -/
inductive Earlier (calls : List Call) (record : List (Nat × Exchange Store.Request.Reply)) (i : Nat)
    (item : Item) : Prop
  | intro {j : Nat} {items : List Item} {put lookup : Exchange Store.Request.Reply}
    {past between future : List (Nat × Exchange Store.Request.Reply)}
    (hmerge : calls[j]? = some (.merge items)) (hitem : item ∈ items)
    (hput : ∃ entries, put.1 = .mset entries) (hlookup : ∃ keys, lookup.1 = .mget keys)
    (hrecord : record = past ++ (j, put) :: (between ++ (i, lookup) :: future))

/-- A string that is looked up has been written before, as a part of an item. -/
theorem exists_earlier {i : Nat} {lookup : Exchange Store.Request.Reply}
    (hrecord : c.callRecord type turns calls start = past ++ (i, lookup) :: future)
    (hlookup : ∃ keys, lookup.1 = .mget keys) {key text : String}
    (htext : (Content.empty.carryOut (past.map (·.2.1))).strings key = some text) :
    ∃ item, Earlier calls (c.callRecord type turns calls start) i item ∧
      (key, text) ∈ c.entries type item := by
  -- the text has been put by some request before the lookup, since the store started empty
  have hput : (∃ x ∈ past, ∃ items, calls[x.1]? = some (.merge items) ∧
      (∃ entries, x.2.1 = .mset entries) ∧ ∃ item ∈ items, (key, text) ∈ c.entries type item) ∨
      Content.empty.strings key = some text := by
    refine Content.exists_of_carryOut (S := fun held => held.strings key = some text)
      (fun x hx held htext => ?_) htext
    obtain ⟨call, hcall, hrequests⟩ :=
      exists_call (hrecord ▸ List.mem_append_left _ hx : x ∈ c.callRecord type turns calls start)
    refine (hrequests.put held htext).imp_left ?_
    rintro ⟨items, rfl, hput⟩
    exact ⟨items, hcall, hput⟩
  rcases hput with ⟨⟨j, put⟩, hx, items, hmerge, hrequest, item, hitem, hentry⟩ | hempty
  · obtain ⟨before, between, rfl⟩ := List.append_of_mem hx
    rw [List.append_assoc, List.cons_append] at hrecord
    exact ⟨item, .intro hmerge hitem hrequest hlookup hrecord, hentry⟩
  · cases hempty

/-- A reply on record is the answer of a store in memory that holds what the requests before have
led to. -/
theorem reply_of_callRecord (hstart : start.Fresh) {i : Nat} {x : Exchange Store.Request.Reply}
    (h : c.callRecord type turns calls start = past ++ (i, x) :: future) :
    ∃ m : Store.Memory, x.2 = .ok (m.answer x.1).1 ∧
      m.content = Content.empty.carryOut (past.map (·.2.1)) := by
  have hadds : ∀ y ∈ c.callRecord type turns calls start, y.2.1.Adds := by
    intro y hy
    obtain ⟨call, -, hrequests⟩ := exists_call hy
    exact hrequests.makes.adds
  have hpast : ∀ y ∈ past, y.2.1.Adds := fun y hy => hadds y (by simp [h, hy])
  obtain ⟨m, htwin⟩ := hstart.twin.after hpast
  refine ⟨m, ?_, ?_⟩
  · rw [Program.reply_of_record Backing.serve h]
    exact (htwin.serve (hadds (i, x) (by simp [h]))).1
  · rw [← htwin.content_eq, (Backing.attends.content_after hstart.twin.ready past).2,
      hstart.twin.content_eq, Store.Memory.content_empty]

/-- A lookup finds entities with sources. -/
theorem found_of_takes (hstart : start.Fresh) (htype : ValidType type)
    (hcalls : ∀ items, .merge items ∈ calls → ∀ item ∈ items, Mergeable item) {i : Nat}
    {ids : List String} {result : Except DomainError (List Entity)}
    {xs : List (Exchange Store.Request.Reply)}
    (hxs : ∀ x ∈ xs, (i, x) ∈ c.callRecord type turns calls start)
    (htakes : (c.getAllByIds type ids).run.Takes xs (.done result)) :
    ∃ entities, result = .ok entities ∧
      Found (Earlier calls (c.callRecord type turns calls start) i) ids entities := by
  have hanswered : Answered xs :=
    fun x hx => Backing.attends.answered hstart.twin.ready _ (hxs x hx)
  rcases c.takes_getAllByIds htype htakes hanswered with
    ⟨rfl, rfl⟩ | ⟨known, slots, rfl, hresult⟩
  · exact ⟨[], rfl, by simp, by simp, by simp⟩
  -- the two replies of the lookup are taken from the record, each with what came before it
  obtain ⟨past, future, hrecord⟩ := List.append_of_mem (hxs _ List.mem_cons_self)
  obtain ⟨m, hreply, hcontent⟩ := reply_of_callRecord hstart hrecord
  obtain rfl : known = m.members (c.indexKey type) := Except.ok.inj hreply
  obtain ⟨past', future', hrecord'⟩ :=
    List.append_of_mem (hxs _ (List.mem_cons_of_mem _ List.mem_cons_self))
  obtain ⟨m', hreply', hcontent'⟩ := reply_of_callRecord hstart hrecord'
  have hslots : slots = ((distinct ids).flatMap
      (c.entityKeys (m.members (c.indexKey type)) type)).map (m'.strings[·]?) :=
    Except.ok.inj hreply'
  rw [hresult (by rw [hslots, List.length_map]), hslots, c.decodeEntities_flatMap]
  refine found_readEach (fun id => ?_) ids
  refine c.readsSourced_of_entries htype (m.members_sorted _) (fun name hname => ?_)
    (fun key text htext => exists_earlier hrecord' ⟨_, rfl⟩ (hcontent' ▸ htext)) ?_ id
  · have hindexed : name ∈ m.content.sets (c.indexKey type) := Store.Memory.mem_members.1 hname
    rw [hcontent] at hindexed
    have hpast : ∀ x ∈ past, x ∈ c.callRecord type turns calls start :=
      fun x hx => hrecord ▸ List.mem_append_left _ hx
    obtain ⟨items, hmerge, item, hitem, hnamed⟩ := exists_name htype hpast hindexed
    exact (hcalls items hmerge item hitem).1 name hnamed
  · rintro item ⟨hmerge, hitem, -, -, -⟩
    exact hcalls _ (List.mem_of_getElem? hmerge) item hitem

variable (c) in
/-- Merges, evictions and lookups on a type run side by side on a store that was empty.  Whatever
turns they take, they can all come to their ends; and every lookup that has ended has found each of
its ids at most once, as an entity whose parts have each been carried as a whole by an item of a
merge that has put its strings by then. -/
theorem found_of_interleave (hstart : start.Fresh) (htype : ValidType type)
    (hcalls : ∀ items, .merge items ∈ calls → ∀ item ∈ items, Mergeable item) (turns : List Nat) :
    (∃ more, ∀ p ∈ (Program.interleave Backing.serve (turns ++ more)
        (calls.map (·.program c type)) start).1, p.value?.isSome) ∧
    ∀ i ids result, calls[i]? = some (.read ids) →
      (Program.interleave Backing.serve turns (calls.map (·.program c type)) start).1[i]?.bind
        (·.value?) = some result →
      ∃ entities, result = .ok (some entities) ∧
        Found (Earlier calls (c.callRecord type turns calls start) i) ids entities := by
  constructor
  · exact Program.exists_ended_append Backing.serve turns _ start
  · intro i ids result hread hended
    have hcall : (calls.map (·.program c type))[i]? = some ((Call.read ids).program c type) := by
      rw [List.getElem?_map, hread, Option.map_some]
    obtain ⟨p, hp, htakes⟩ := Program.takes_record Backing.serve (s := start) turns hcall
    rw [hp, Option.bind_some, Program.value?_eq_some] at hended
    obtain rfl := hended
    -- the exchanges of the lookup are those on record in the place of the call
    obtain ⟨found, xs, rest, hsplit, hlookup, hrest⟩ := Program.Takes.of_bind htakes
    have hxs : ∀ x ∈ xs, (i, x) ∈ c.callRecord type turns calls start := fun x hx =>
      Program.mem_inPlace.1 (hsplit ▸ List.mem_append_left _ hx)
    obtain ⟨entities, rfl, hfound⟩ := found_of_takes hstart htype hcalls hxs hlookup
    exact ⟨entities, (takes_pure hrest).2, hfound⟩

end Runs

/-! ## A lookup between two merges -/

/-- A host is merged, looked up, and merged again with another relationship. -/
def hostCalls : List Call :=
  [.merge [(diskHost "disks").listed], .read ["a"], .merge [(diskHost "volumes").listed]]

/-- The lookup learns the names before the second merge and the strings after it, and shows the host
without the new relationship. -/
theorem found_of_interleave_hostCalls :
    ValidType "host" ∧ (∀ items, .merge items ∈ hostCalls → ∀ item ∈ items, Mergeable item) ∧
      (Program.interleave Backing.serve [0, 0, 0, 1, 2, 2, 2, 1]
        (hostCalls.map (·.program (mk "fleetcache") "host")) (.memory {})).1[1]?.bind (·.value?) =
          some (.ok (some [diskHost "disks"])) ∧
      Found (Earlier hostCalls ((mk "fleetcache").callRecord "host" [0, 0, 0, 1, 2, 2, 2, 1]
        hostCalls (.memory {})) 1) ["a"] [diskHost "disks"] := by
  have htype : ValidType "host" := by decide
  have hmergeable (name : String) (hname : ':' ∉ name.toList) : Mergeable (diskHost name).listed :=
    ⟨by simpa [diskHost, Entity.withRelationship, Entity.withAttribute] using hname,
      (readable_diskHost name).proper, (readable_diskHost name).depth⟩
  have hcalls : ∀ items, .merge items ∈ hostCalls → ∀ item ∈ items, Mergeable item := by
    simp [hostCalls, hmergeable]
  have hended : (Program.interleave Backing.serve [0, 0, 0, 1, 2, 2, 2, 1]
      (hostCalls.map (·.program (mk "fleetcache") "host")) (.memory {})).1[1]?.bind (·.value?) =
        some (.ok (some [diskHost "disks"])) := by
    decide +kernel
  obtain ⟨entities, hresult, hfound⟩ := (found_of_interleave (mk "fleetcache") (.inl rfl) htype
    hcalls _).2 1 ["a"] _ rfl hended
  cases hresult
  exact ⟨htype, hcalls, hended, hfound⟩

/-- What is found after `misreadItem` has been merged. -/
def rereadItem : Entity :=
  ({ id := "i" } : Entity).withAttribute "x"
    (.number (.double ⟨false, 6938893903907229, 56, by decide⟩))

/-- The attributes that are found are not always those of an item, not even without a write at the
same time. -/
theorem not_always_carried : ¬∀ (calls : List Call) (turns : List Nat),
    (∀ items, .merge items ∈ calls → ∀ item ∈ items, Mergeable item) →
    ∀ (i : Nat) (ids : List String) (entities : List Entity), calls[i]? = some (.read ids) →
      (Program.interleave Backing.serve turns
        (calls.map (·.program (mk "fleetcache") "type")) (.memory {})).1[i]?.bind (·.value?) =
          some (.ok (some entities)) →
      ∀ e ∈ entities, ∃ items, .merge items ∈ calls ∧
        ∃ item ∈ items, item.id = e.id ∧ e.attributes = item.attributes := by
  intro h
  have hmergeable : Mergeable misreadItem := by
    refine ⟨?_, proper_misreadItem, depth_misreadItem⟩
    simp [misreadItem, Entity.withAttribute]
  -- the merge is over before the lookup begins, so the double is written and read back
  have hended : (Program.interleave Backing.serve [0, 0, 1, 1]
      ([Call.merge [misreadItem], .read ["i"]].map (·.program (mk "fleetcache") "type"))
      (.memory {})).1[1]?.bind (·.value?) = some (.ok (some [rereadItem])) := by
    decide +kernel
  obtain ⟨items, hitems, item, hitem, -, hattributes⟩ :=
    h _ _ (by simpa using hmergeable) 1 ["i"] [rereadItem] rfl hended _ List.mem_cons_self
  obtain rfl : items = [misreadItem] := by simpa using hitems
  obtain rfl := List.mem_singleton.1 hitem
  exact absurd hattributes (by decide +kernel)

end KeyValueCache

end EntityCache
