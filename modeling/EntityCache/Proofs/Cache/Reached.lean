import EntityCache.Proofs.Cache.Readability
import EntityCache.Proofs.Cache.Refinement
import EntityCache.Proofs.Store.Interleaving

/-!
# Stores that writes reach side by side

Writes of a cache may run side by side on one store, which answers their requests one at a time.
A request may fail, and a write may be given up between two requests and leave what it has done so
far.  `Reached` are the stores that come about in this way, with the writes that are still under
way.

However the writes come in each other's way, the order of the requests in a write keeps up two
things (`Kept`): every string is the text of attributes or of a relationship, and a relationship
that is there has its name in the index.  For a write adds its names to the index before it writes a
relationship (`Orderly`), and no write takes a name from an index.

So a store that has been reached holds an entity for each id, if it has anything at all, and a
reader finds this entity (`Reached.exists_stores`).
-/

namespace EntityCache

open Store (Backing Calls Content)

namespace Write

/-- The relationships of the write have names of the set. -/
def Named (names : Set String) : Write → Prop
  | merge _ items => ∀ item ∈ items, ∀ name ∈ item.relationships, name ∈ names
  | evict _ _ => True

end Write

namespace KeyValueCache

variable (c : KeyValueCache) {names known : Set String} {type type' : String} {held : Content}
  {r : Store.Request} {running : List (Calls (Except DomainError Unit))} {b : Backing}

/-! ## What a request of a write may be -/

/-- The names that a request adds to the index of a type. -/
def namesAdded (type : String) : Store.Request → List String
  | .sadd key members => if key = c.indexKey type then members else []
  | _ => []

/-- A request of a write on the type that knows some names to be in the index: it adds names of the
set, and writes no relationship but with a known name. -/
inductive Careful (names known : Set String) (type : String) : Store.Request → Prop
  | look {r : Store.Request} (h : c.Looks type r) : Careful names known type r
  | name {added : List String} (h : added ≠ []) (hadded : ∀ name ∈ added, name ∈ names) :
    Careful names known type (.sadd (c.indexKey type) added)
  | put (items : List Item)
    (hknown : ∀ item ∈ items, ∀ name ∈ item.relationships, name ∈ known) :
    Careful names known type (.mset (items.flatMap (c.entries type)))
  | enter {ids : List String} (h : ids ≠ []) :
    Careful names known type (.sadd (c.membersKey type) ids)
  | delete (indexed ids : List String) : Careful names known type (.del (ids.flatMap fun id =>
      indexed.map (c.relationshipKey type id) ++ [c.attributesKey type id]))
  | leave (ids : List String) : Careful names known type (.srem (c.membersKey type) ids)

variable {c}

/-- Careful requests are requests of a write. -/
theorem Careful.makes (h : c.Careful names known type r) : c.Makes type r := by
  cases h with
  | look h => exact .look h
  | name h => exact .name h
  | put items => exact .put items
  | enter h => exact .enter h
  | delete indexed ids => exact .delete indexed ids
  | leave ids => exact .leave ids

/-- Every request is careful about names of which all are allowed and known. -/
theorem Makes.careful (h : c.Makes type r) : c.Careful Set.univ Set.univ type r := by
  cases h with
  | look h => exact .look h
  | name h => exact .name h fun _ _ => trivial
  | put items => exact .put items fun _ _ _ _ => trivial
  | enter h => exact .enter h
  | delete indexed ids => exact .delete indexed ids
  | leave ids => exact .leave ids

/-- The names that are added are of the set. -/
theorem Careful.namesAdded_subset (h : c.Careful names known type r) (htype : ValidType type) :
    ∀ name ∈ c.namesAdded type r, name ∈ names := by
  intro name hname
  cases h with
  | look h => cases h <;> cases hname
  | name _ hadded =>
    rw [namesAdded, if_pos rfl] at hname
    exact hadded name hname
  | put | delete | leave => cases hname
  | enter =>
    rw [namesAdded, if_neg (c.indexKey_ne_membersKey htype htype).symm] at hname
    cases hname

/-- An index changes by the names that are added to it, and in no other way. -/
theorem Careful.mem_index (h : c.Careful names known type r) (htype : ValidType type)
    (htype' : ValidType type') {name : String} :
    name ∈ (held.answer r).2.sets (c.indexKey type') ↔
      name ∈ held.sets (c.indexKey type') ∨ type' = type ∧ name ∈ c.namesAdded type r := by
  -- only the request that names adds to an index, and only to that of its own type
  cases h with
  | look h =>
    have hnone : name ∉ c.namesAdded type r := by cases h <;> simp [namesAdded]
    rw [Content.answer_of_reads h.reads]
    simp [hnone]
  | name =>
    by_cases hsame : type' = type
    · subst hsame
      simp [Content.answer, Content.add, Content.change, namesAdded]
    · have hkey : c.indexKey type' ≠ c.indexKey type :=
        fun heq => hsame ((c.indexKey_inj htype' htype).1 heq)
      simp [Content.answer, Content.add, Content.change, Function.update_of_ne hkey, hsame]
  | put => simp [Content.answer, Content.put, namesAdded]
  | enter =>
    have hnone : c.membersKey type ≠ c.indexKey type := (c.indexKey_ne_membersKey htype htype).symm
    simp [Content.answer, Content.add, Content.change, namesAdded, hnone,
      Function.update_of_ne (c.indexKey_ne_membersKey htype' htype)]
  | delete indexed ids =>
    have hkey : c.indexKey type' ∉ ids.flatMap fun id =>
        indexed.map (c.relationshipKey type id) ++ [c.attributesKey type id] :=
      fun hmem => (c.isStringKey_of_mem_deleted htype hmem).ne_indexKey c htype' rfl
    rw [(Content.sameAt_answer hkey held).set]
    simp [namesAdded]
  | leave =>
    simp [Content.answer, Content.takeOut, Content.change, namesAdded,
      Function.update_of_ne (c.indexKey_ne_membersKey htype' htype)]

/-- A string that is there after a request was there before, or is a part of an item whose names are
known. -/
theorem Careful.string_cases (h : c.Careful names known type r) {key text : String}
    (htext : (held.answer r).2.strings key = some text) : held.strings key = some text ∨
      ∃ item, (∀ name ∈ item.relationships, name ∈ known) ∧
        (key, text) ∈ c.entries type item := by
  -- only `mset` puts a string
  cases h with
  | look h =>
    rw [Content.answer_of_reads h.reads] at htext
    exact .inl htext
  | name | enter | leave => exact .inl htext
  | put items hknown =>
    refine (Content.mem_or_of_strings_put htext).symm.imp_right fun hentry => ?_
    obtain ⟨item, hitem, hmem⟩ := List.mem_flatMap.1 hentry
    exact ⟨item, hknown item hitem, hmem⟩
  | delete =>
    rw [Content.answer, Content.remove] at htext
    simp only at htext
    split at htext
    · cases htext
    · exact .inl htext

/-! ## What is kept up -/

variable (c) in
/-- The strings of a valid type are texts of attributes and of relationships, and the index covers
the relationships. -/
structure Kept (names : Set String) (held : Content) : Prop where
  named : ∀ {type}, ValidType type → ∀ name ∈ held.sets (c.indexKey type), name ∈ names
  attributes : ∀ {type}, ValidType type → ∀ {id text},
    held.strings (c.attributesKey type id) = some text →
      ∃ a : Attributes, a.isEmpty = false ∧ a.IsText text
  relationships : ∀ {type}, ValidType type → ∀ {id}, ∀ name ∈ names, ∀ {text},
    held.strings (c.relationshipKey type id name) = some text →
      name ∈ held.sets (c.indexKey type) ∧ ∃ ids, text = Names.encode ids

/-- An empty store is kept. -/
theorem kept_empty : c.Kept names .empty where
  named _ name h := by simp [Content.empty] at h
  attributes _ _ _ h := by cases h
  relationships _ _ _ _ _ h := by cases h

/-- A careful request keeps a store: no relationship is stored under a name that is not in the
index. -/
theorem Kept.answer (hnames : Separable names) (htype : ValidType type) (h : c.Kept names held)
    (hr : c.Careful names known type r)
    (hknown : ∀ name ∈ known, name ∈ held.sets (c.indexKey type)) :
    c.Kept names (held.answer r).2 where
  named {type'} htype' name hname := by
    rcases (hr.mem_index htype htype').1 hname with hbefore | ⟨-, hadded⟩
    · exact h.named htype' name hbefore
    · exact hr.namesAdded_subset htype name hadded
  attributes {type'} htype' id text htext := by
    rcases hr.string_cases htext with hbefore | ⟨item, -, hentry⟩
    · exact h.attributes htype' hbefore
    · rcases c.mem_entries.1 hentry with ⟨hattributes, -, rfl⟩ | ⟨name, ids, -, hkey, -⟩
      · exact ⟨item.attributes, hattributes, item.isText⟩
      · exact absurd hkey (c.attributesKey_ne_relationshipKey htype' htype)
  relationships {type'} htype' id name hname text htext := by
    rw [hr.mem_index htype htype']
    rcases hr.string_cases htext with hbefore | ⟨item, hitem, hentry⟩
    · exact (h.relationships htype' name hname hbefore).imp_left .inl
    · rcases c.mem_entries.1 hentry with ⟨-, hkey, -⟩ | ⟨other, ids, hids, hkey, rfl⟩
      · exact absurd hkey.symm (c.attributesKey_ne_relationshipKey htype htype')
      · -- the name is the one of the item, which is in the index already
        have hindex := hknown other
          (hitem other (Std.ExtTreeMap.isSome_getElem?_iff_mem.1 (by rw [hids]; rfl)))
        obtain ⟨rfl, -, rfl⟩ := (c.relationshipKey_inj hnames htype' htype hname
          (h.named htype other hindex)).1 hkey
        exact ⟨.inl hindex, ids, rfl⟩

/-! ## Writes under way -/

variable (c) in
/-- A write on the type that makes careful requests only, whatever it is answered.  It knows the
names that it has added to the index. -/
def Orderly (names : Set String) (type : String) :
    Set String → Calls (Except DomainError Unit) → Prop
  | _, .done _ => True
  | known, .ask r next => ValidType type ∧ c.Careful names known type r ∧
      (∀ e, Orderly names type known (next (.error e))) ∧
      ∀ a, Orderly names type (known ∪ {name | name ∈ c.namesAdded type r}) (next (.ok a))

/-- A careful request comes first, and what follows may rely on the names that it has added. -/
theorem orderly_call (htype : ValidType type) (hr : c.Careful names known type r)
    {f : r.Answer → Action Unit}
    (h : ∀ a, c.Orderly names type (known ∪ {name | name ∈ c.namesAdded type r}) (f a).run) :
    c.Orderly names type known (call r >>= f).run :=
  ⟨htype, hr, fun _ => trivial, h⟩

/-- A write on a type that is not valid makes no request. -/
theorem orderly_validate {f : Unit → Action Unit}
    (h : ValidType type → c.Orderly names type known (f ()).run) :
    c.Orderly names type known (validate type >>= f).run := by
  rw [validate]
  split
  case isTrue htype => exact h htype
  case isFalse => trivial

/-- A merge adds its names before it writes the relationships. -/
theorem orderly_mergeAll {items : List Item}
    (hitems : ∀ item ∈ items, ∀ name ∈ item.relationships, name ∈ names) :
    c.Orderly names type ∅ (c.mergeAll type items).run := by
  refine orderly_validate fun htype => ?_
  simp only
  split
  · trivial
  case isFalse hwritten =>
    have hids : (items.filter (!·.isBlank)).map (·.id) ≠ [] := fun hnil =>
      hwritten (List.isEmpty_iff.2 (List.map_eq_nil_iff.1 hnil))
    -- the last two requests may rely on the names, whether they were known or have just been added
    have hstrings (known : Set String) (hknown : ∀ name ∈ relationshipNames items, name ∈ known) :
        c.Orderly names type known (ExceptT.run do
          call (.mset (items.flatMap (c.entries type)))
          let _ ← call (.sadd (c.membersKey type) ((items.filter (!·.isBlank)).map (·.id)))) := by
      refine orderly_call htype (.put items fun item hitem name hname => ?_) fun _ =>
        orderly_call htype (.enter hids) fun _ => trivial
      exact hknown name (mem_relationshipNames.2 ⟨item, hitem, hname⟩)
    split
    case isTrue hsome =>
      refine orderly_call htype (.name (fun hnil => ?_) fun name hname => ?_) fun _ =>
        hstrings _ fun name hname => .inr ?_
      · rw [hnil] at hsome
        cases hsome
      · obtain ⟨item, hitem, hmem⟩ := mem_relationshipNames.1 hname
        exact hitems item hitem name hmem
      · rw [Set.mem_ofPred_eq, namesAdded, if_pos rfl]
        exact hname
    case isFalse hnone =>
      have hnil : relationshipNames items = [] := by simpa using hnone
      exact hstrings ∅ (by simp [hnil])

/-- Evictions are orderly, whatever names are known. -/
theorem orderly_evictAll (ids : List String) :
    c.Orderly names type ∅ (c.evictAll type ids).run := by
  refine orderly_validate fun htype => ?_
  simp only
  split
  · trivial
  · exact orderly_call htype (.look .index) fun known =>
      orderly_call htype (.delete known _) fun _ => orderly_call htype (.leave _) fun _ => trivial

/-! ## Stores that are reached -/

variable (c) in
/-- A store that writes reach side by side, with the writes that are under way: a store that has
just been made; a write begins; the store answers the request of a write; the request fails, and
nothing is done; or a write is given up. -/
inductive Reached (names : Set String) : List (Calls (Except DomainError Unit)) → Backing → Prop
  | fresh {b : Backing} (h : b.Fresh) : Reached names [] b
  | begin {running : List (Calls (Except DomainError Unit))} {b : Backing} (write : Write)
    (hwrite : write.Named names) (h : Reached names running b) :
    Reached names ((write.perform c.writer).run :: running) b
  | serve {before after : List (Calls (Except DomainError Unit))} {r : Store.Request}
    {next : r.Reply → Calls (Except DomainError Unit)} {b : Backing}
    (h : Reached names (before ++ .ask r next :: after) b) :
    Reached names (before ++ next (b.serve r).1 :: after) (b.serve r).2
  | fail {before after : List (Calls (Except DomainError Unit))} {r : Store.Request}
    {next : r.Reply → Calls (Except DomainError Unit)} {b : Backing} (e : StoreError)
    (h : Reached names (before ++ .ask r next :: after) b) :
    Reached names (before ++ next (.error e) :: after) b
  | abandon {before after : List (Calls (Except DomainError Unit))}
    {p : Calls (Except DomainError Unit)} {b : Backing}
    (h : Reached names (before ++ p :: after) b) : Reached names (before ++ after) b

/-- A write that knows only names that are in the index. -/
def InOrder (c : KeyValueCache) (names : Set String) (held : Content)
    (p : Calls (Except DomainError Unit)) : Prop :=
  ∃ type known, (ValidType type → ∀ name ∈ known, name ∈ held.sets (c.indexKey type)) ∧
    c.Orderly names type known p

variable (c) in
/-- What holds of a store that writes have reached, and of the writes that are under way. -/
structure Sane (names : Set String) (running : List (Calls (Except DomainError Unit)))
    (b : Backing) : Prop where
  twin : ∃ m, b.Twin m
  kept : c.Kept names b.content
  inOrder : ∀ p ∈ running, c.InOrder names b.content p

/-- Another write is not disturbed by a careful request. -/
theorem InOrder.answer {p : Calls (Except DomainError Unit)} (h : c.InOrder names held p)
    (htype : ValidType type) (hr : c.Careful names known type r) :
    c.InOrder names (held.answer r).2 p := by
  obtain ⟨type', known', hknown', horderly⟩ := h
  exact ⟨type', known', fun htype' name hname =>
    (hr.mem_index htype htype').2 (.inl (hknown' htype' name hname)), horderly⟩

/-- A fresh store is sane while nothing runs. -/
theorem sane_of_fresh (h : b.Fresh) : c.Sane names [] b where
  twin := ⟨_, h.twin⟩
  kept := by
    rw [h.twin.content_eq, Store.Memory.content_empty]
    exact kept_empty
  inOrder := List.forall_mem_nil _

/-- A write may begin at any time. -/
theorem Sane.begin {write : Write} (hwrite : write.Named names) (h : c.Sane names running b) :
    c.Sane names ((write.perform c.writer).run :: running) b where
  twin := h.twin
  kept := h.kept
  inOrder := by
    refine List.forall_mem_cons.2 ⟨?_, h.inOrder⟩
    cases write with
    | merge type items => exact ⟨type, ∅, by simp, orderly_mergeAll hwrite⟩
    | evict type ids => exact ⟨type, ∅, by simp, orderly_evictAll ids⟩

/-- Any of the writes under way may make its next request. -/
theorem Sane.serve (hnames : Separable names)
    {before after : List (Calls (Except DomainError Unit))}
    {next : r.Reply → Calls (Except DomainError Unit)}
    (h : c.Sane names (before ++ .ask r next :: after) b) :
    c.Sane names (before ++ next (b.serve r).1 :: after) (b.serve r).2 := by
  obtain ⟨m, htwin⟩ := h.twin
  obtain ⟨⟨a, ha⟩, hcontent⟩ := Backing.attends.carriesOut htwin.ready r
  obtain ⟨hbefore, hrest⟩ := List.forall_mem_append.1 h.inOrder
  obtain ⟨⟨type, known, hknown, htype, hr, -, hok⟩, hafter⟩ := List.forall_mem_cons.1 hrest
  refine ⟨⟨_, (htwin.serve hr.makes.adds).2⟩, ?_, ?_⟩
  · rw [hcontent]
    exact h.kept.answer hnames htype hr (hknown htype)
  · rw [hcontent, ha]
    refine List.forall_mem_append.2 ⟨fun p hp => (hbefore p hp).answer htype hr,
      List.forall_mem_cons.2 ⟨?_, fun p hp => (hafter p hp).answer htype hr⟩⟩
    refine ⟨type, _, fun _ name hname => (hr.mem_index htype htype).2 ?_, hok a⟩
    exact hname.imp (hknown htype name) fun hadded => ⟨rfl, hadded⟩

/-- Every store that is reached is sane. -/
theorem Reached.sane (hnames : Separable names) (h : c.Reached names running b) :
    c.Sane names running b := by
  induction h with
  | fresh h => exact sane_of_fresh h
  | begin write hwrite _ ih => exact ih.begin hwrite
  | serve _ ih => exact ih.serve hnames
  | fail e _ ih =>
    refine ⟨ih.twin, ih.kept, ?_⟩
    obtain ⟨hbefore, hrest⟩ := List.forall_mem_append.1 ih.inOrder
    obtain ⟨⟨type, known, hknown, -, -, herror, -⟩, hafter⟩ := List.forall_mem_cons.1 hrest
    exact List.forall_mem_append.2 ⟨hbefore,
      List.forall_mem_cons.2 ⟨⟨type, known, hknown, herror e⟩, hafter⟩⟩
  | abandon _ ih =>
    refine ⟨ih.twin, ih.kept, ?_⟩
    obtain ⟨hbefore, hrest⟩ := List.forall_mem_append.1 ih.inOrder
    exact List.forall_mem_append.2 ⟨hbefore, (List.forall_mem_cons.1 hrest).2⟩

/-! ## Ways to reach a store -/

/-- All writes that are under way may be given up. -/
theorem Reached.abandonAll (h : c.Reached names running b) : c.Reached names [] b := by
  induction running with
  | nil => exact h
  | cons p rest ih =>
    have hfirst : c.Reached names ([] ++ p :: rest) b := h
    exact ih hfirst.abandon

/-- Several writes may begin at once. -/
theorem Reached.beginAll (h : c.Reached names [] b) {writes : List Write}
    (hwrites : ∀ write ∈ writes, write.Named names) :
    c.Reached names (writes.map fun write => (write.perform c.writer).run) b := by
  induction writes with
  | nil => exact h
  | cons write rest ih =>
    obtain ⟨hwrite, hrest⟩ := List.forall_mem_cons.1 hwrites
    exact .begin write hwrite (ih hrest)

/-- Writes under way may take any turns. -/
theorem Reached.interleave (h : c.Reached names running b) (turns : List Nat) :
    c.Reached names (Program.interleave Backing.serve turns running b).1
      (Program.interleave Backing.serve turns running b).2 :=
  Program.interleave_induction Backing.serve (fun _ _ _ _ _ h => h.serve) turns h

/-- A store is reached by writes one after another. -/
theorem Reached.performAll (h : c.Reached names [] b) {history : List Write}
    (hhistory : ∀ write ∈ history, write.Named names) :
    c.Reached names [] (Action.on Backing.serve (Write.performAll c.writer history) b).2 := by
  induction history generalizing b with
  | nil => exact h
  | cons write rest ih =>
    obtain ⟨hwrite, hrest⟩ := List.forall_mem_cons.1 hhistory
    -- a write alone is an interleaving in which it has all the turns
    have hone : c.Reached names [] (Action.on Backing.serve (write.perform c.writer) b).2 := by
      obtain ⟨turns, hturns⟩ :=
        Program.exists_interleave_first Backing.serve (write.perform c.writer).run [] b
      have hreached := (Reached.begin write hwrite h).interleave turns
      rw [hturns] at hreached
      exact hreached.abandonAll
    rw [Write.performAll, Action.on_bind]
    generalize Action.on Backing.serve (write.perform c.writer) b = reply at hone ⊢
    obtain ⟨result, after⟩ := reply
    cases result with
    | ok => exact ih hone hrest
    | error e => exact hone

/-! ## What is stored for an id -/

variable (c) in
/-- The store holds an entity under an id, or none: its strings are the texts of the parts of the
entity, and a reader finds the entity if it has attributes and they are readable. -/
structure Stores (names : Set String) (b : Backing) (type id : String) (e : Option Entity) :
    Prop where
  parts : c.PartsOf names type id b.content.strings e
  keyed : ∀ x ∈ e, x.id = id
  named : ∀ x ∈ e, ∀ name ∈ x.relationships, name ∈ names
  read : (∀ x ∈ e, x.attributes.Readable) →
    (Action.on Backing.serve (c.reader.get type id) b).1 = .ok (e.filter (·.isVisible))

/-- A reader finds what the strings say. -/
theorem Sane.stores (h : c.Sane names running b) (htype : ValidType type) {id : String}
    {e : Option Entity} (hparts : c.PartsOf names type id b.content.strings e)
    (hkeyed : ∀ x ∈ e, x.id = id) (hnamed : ∀ x ∈ e, ∀ name ∈ x.relationships, name ∈ names) :
    c.Stores names b type id e where
  parts := hparts
  keyed := hkeyed
  named := hnamed
  read hreadable := by
    obtain ⟨m, htwin⟩ := h.twin
    have hkept := h.kept
    rw [htwin.content_eq] at hparts hkept
    replace hparts : c.PartsOf names type id (m.strings[·]?) e := hparts
    have hrun := (htwin.run (adds_get (c := c) type id)).1
    have hget : (Action.on Backing.serve (c.reader.get type id) b).1 =
        (Action.on Store.Memory.serve (c.reader.get type id) m).1 := hrun
    rw [hget, c.on_get htype]
    refine hparts.stored c (hkept.named htype) ?_ hkeyed hreadable
    -- a relationship of the entity has a text, so its name is in the index and is looked up
    rintro x rfl name hname
    have htext := hparts.relationships name (hnamed x rfl name hname)
    obtain ⟨ids, hids⟩ :=
      Option.isSome_iff_exists.1 (Std.ExtTreeMap.isSome_getElem?_iff_mem.2 hname)
    rw [relationshipText, Option.bind_some, hids] at htext
    exact (hkept.relationships htype name (hnamed x rfl name hname) htext).1

/-- The ids that are listed are the members. -/
theorem getIdentifiers_of_twin {m : Store.Memory} (htwin : b.Twin m) (htype : ValidType type) :
    (Action.on Backing.serve (c.reader.getIdentifiers type) b).1 =
      .ok (b.content.sets (c.membersKey type)).toList := by
  have hadds : Action.Adds (c.reader.getIdentifiers type) :=
    (asks_getIdentifiers type).mono fun _ h => h.adds
  have hrun := (htwin.run hadds).1
  have hlist : (Action.on Backing.serve (c.reader.getIdentifiers type) b).1 =
      (Action.on Store.Memory.serve (c.getIdentifiers type) m).1 := hrun
  rw [hlist, c.on_getIdentifiers htype, htwin.content_eq]
  rfl

/-- On a sane store, the ids listed are the members of the type. -/
theorem Sane.getIdentifiers (h : c.Sane names running b) (htype : ValidType type) :
    (Action.on Backing.serve (c.reader.getIdentifiers type) b).1 =
      .ok (b.content.sets (c.membersKey type)).toList := by
  obtain ⟨m, htwin⟩ := h.twin
  exact getIdentifiers_of_twin htwin htype

/-- An entity with neither attributes nor relationships has no parts. -/
theorem PartsOf.of_blank {id : String} {strings : String → Option String} {e : Entity}
    (h : c.PartsOf names type id strings (some e)) (he : e.isBlank = true) :
    c.PartsOf names type id strings none := by
  simp only [Entity.isBlank, Bool.and_eq_true, Std.ExtTreeMap.isEmpty_iff] at he
  refine ⟨?_, fun name hname => (h.relationships name hname).trans ?_⟩
  · simpa [he.1, HoldsAttributes] using holdsAttributes_some_iff.1 h.attributes
  · simp [relationshipText, he.2]

/-- The strings of an id are the parts of an entity, or there are none. -/
theorem Kept.exists_parts (h : c.Kept names held) (htype : ValidType type) (id : String) :
    ∃ e : Option Entity, c.PartsOf names type id held.strings e ∧ (∀ x ∈ e, x.id = id) ∧
      ∀ x ∈ e, ∀ name ∈ x.relationships, name ∈ names := by
  obtain ⟨attributes, hattributes⟩ : ∃ a : Attributes, Attributes.Held
      (held.strings (c.attributesKey type id)) (if a.isEmpty then none else some a) := by
    cases htext : held.strings (c.attributesKey type id) with
    | none => exact ⟨∅, .none⟩
    | some text =>
      obtain ⟨a, ha, htext⟩ := h.attributes htype htext
      exact ⟨a, by rw [ha]; exact .some htext⟩
  -- the relationships are those that the index knows, with what is read for each of them
  obtain ⟨relationships, hread⟩ := exists_map (held.sets (c.indexKey type)).toList fun name =>
    (held.strings (c.relationshipKey type id name)).bind Names.decode?
  have hrelationships : ∀ name ∈ names, held.strings (c.relationshipKey type id name) =
      relationships[name]?.map Names.encode := by
    intro name hname
    rw [hread]
    cases htext : held.strings (c.relationshipKey type id name) with
    | none => simp
    | some text =>
      obtain ⟨hindexed, ids, rfl⟩ := h.relationships htype name hname htext
      rw [if_pos (Std.ExtTreeSet.mem_toList.2 hindexed), Option.bind_some, Names.decode?_encode,
        Option.map_some]
  have hparts : c.PartsOf names type id held.strings (some ⟨id, attributes, relationships⟩) :=
    ⟨holdsAttributes_some_iff.2 hattributes, hrelationships⟩
  by_cases hblank : (⟨id, attributes, relationships⟩ : Entity).isBlank = true
  · exact ⟨none, hparts.of_blank hblank, nofun, nofun⟩
  · refine ⟨_, hparts, ?_, ?_⟩
    · rintro x ⟨⟩
      rfl
    · rintro x ⟨⟩ name hname
      rw [← Std.ExtTreeMap.isSome_getElem?_iff_mem, hread] at hname
      split at hname
      case isTrue hindexed =>
        exact h.named htype name (Std.ExtTreeSet.mem_toList.1 hindexed)
      case isFalse => cases hname

/-- A store that is reached holds an entity under every id of a valid type, or none. -/
theorem Reached.exists_stores (hnames : Separable names) (h : c.Reached names running b)
    (htype : ValidType type) (id : String) : ∃ e, c.Stores names b type id e := by
  have hsane := h.sane hnames
  obtain ⟨e, hparts, hkeyed, hnamed⟩ := hsane.kept.exists_parts htype id
  exact ⟨e, hsane.stores htype hparts hkeyed hnamed⟩

end KeyValueCache

end EntityCache
