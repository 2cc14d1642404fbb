import EntityCache.Proofs.Cache.Mirror
import EntityCache.Proofs.Cache.Requests

/-!
# What can be read after a history of writes

A merge writes an attribute map of any depth, and a read refuses one of more levels than a value may
have.  Everything else that a write leaves behind is read.  So it is the last attributes merged for
an id and not evicted since, `Write.lastAttributes`, that decide whether a read is refused: a lookup
exactly if it asks for an id whose last attributes are too deep, and a listing exactly if its type
has one (`refusesDeep_performAll`).

The invariant `Keeps` says what stands under the keys of a type.  It is shown on a store in memory;
a database answers the same, since an operation of a cache never adds nothing to a set.
-/

namespace EntityCache

/-! ## The last attributes of an id -/

namespace Write

/-- The type that is written to. -/
def type : Write → String
  | merge type _ | evict type _ => type

/-- The attributes that are merged have no integer that does not fit a word. -/
def NumbersFit : Write → Prop
  | merge _ items => ∀ item ∈ items, item.attributes.NumbersFit
  | evict _ _ => True

/-- The attributes of an id after an item has been merged: an item of another id, or without
attributes, leaves them. -/
def attributesAfterItem (id : String) (before : Option Attributes) (item : Item) :
    Option Attributes :=
  if item.id = id ∧ item.attributes.isEmpty = false then some item.attributes else before

/-- The attributes of an id of a type after a write. -/
def attributesAfter (type id : String) (before : Option Attributes) : Write → Option Attributes
  | merge t items => if t = type then items.foldl (attributesAfterItem id) before else before
  | evict t ids => if t = type ∧ id ∈ ids then none else before

/-- The attributes last merged for an id of a type and not evicted since. -/
def lastAttributes (history : List Write) (type id : String) : Option Attributes :=
  history.foldl (attributesAfter type id) none

/-- What an id has after items have been merged it had before, or it is what one of them has. -/
theorem eq_or_mem_of_attributesAfterItem {id : String} {items : List Item}
    {before : Option Attributes} {a : Attributes}
    (h : items.foldl (attributesAfterItem id) before = some a) :
    before = some a ∨
      ∃ item ∈ items, item.id = id ∧ item.attributes.isEmpty = false ∧ item.attributes = a := by
  induction items generalizing before with
  | nil => exact .inl h
  | cons item items ih =>
    rcases ih h with hbefore | ⟨other, hother, hwritten⟩
    · rw [attributesAfterItem] at hbefore
      split at hbefore
      case isTrue hitem =>
        exact .inr ⟨item, List.mem_cons_self, hitem.1, hitem.2, Option.some.inj hbefore⟩
      case isFalse => exact .inl hbefore
    · exact .inr ⟨other, List.mem_cons_of_mem _ hother, hwritten⟩

/-- The last attributes of the id have more levels than a value may have. -/
def Deep (history : List Write) (type id : String) : Prop :=
  ∃ a, lastAttributes history type id = some a ∧ Document.nestingLimit < a.depth

end Write

namespace KeyValueCache

variable (c : KeyValueCache) {type : String} {m m' : Store.Memory} {α β : Type}

/-! ## Refusals -/

/-- The result is the refusal of a stored string. -/
def Refused (result : Except DomainError α) : Prop :=
  ∃ detail, result = .error (.serialization detail)

/-- Reads of a type are refused exactly where they come upon one of these ids. -/
structure RefusesDeep {σ : Type} (serve : (r : Store.Request) → σ → r.Reply × σ) (s : σ)
    (type : String) (deep : String → Prop) : Prop where
  get : ∀ id, Refused (Action.on serve (c.reader.get type id) s).1 ↔ deep id
  getAllByIds : ∀ ids,
    Refused (Action.on serve (c.reader.getAllByIds type ids) s).1 ↔ ∃ id ∈ ids, deep id
  getAll : Refused (Action.on serve (c.reader.getAll type) s).1 ↔ ∃ id, deep id

/-- An unreadable text is a refusal. -/
theorem refused_error : Refused (.error unreadable : Except DomainError α) := ⟨_, rfl⟩

/-- A result is no refusal. -/
theorem not_refused_ok {x : α} : ¬Refused (.ok x : Except DomainError α) := by
  rintro ⟨detail, h⟩
  cases h

/-- An invalid type is another failure than a refused text. -/
theorem not_refused_invalidType :
    ¬Refused (.error (.invalidType type) : Except DomainError α) := by
  rintro ⟨detail, h⟩
  cases h

/-- Ids are read one after another up to the first refusal. -/
theorem refused_readEach {read : String → Except DomainError (Option Entity)} {ids : List String}
    (h : ∀ id, Refused (read id) ∨ ∃ found, read id = .ok found) :
    Refused (readEach read ids) ↔ ∃ id ∈ ids, Refused (read id) := by
  induction ids with
  | nil => simp [readEach, not_refused_ok]
  | cons id ids ih =>
    rw [readEach, List.exists_mem_cons_iff]
    rcases h id with ⟨detail, hrefused⟩ | ⟨found, hok⟩
    · rw [hrefused]
      exact iff_of_true ⟨detail, rfl⟩ (.inl ⟨detail, rfl⟩)
    · rw [hok, ← ih, or_iff_right not_refused_ok]
      -- after an id that is read, the failure is that of the rest
      cases found with
      | none => rfl
      | some entity =>
        show Refused ((readEach read ids).map (entity :: ·)) ↔ _
        cases readEach read ids with
        | ok entities => exact iff_of_false not_refused_ok not_refused_ok
        | error e => simp [Refused, Except.map]

/-- Sets of ids that are read one by one are all read. -/
theorem decodeNamed_isOk {texts : List (String × String)}
    (h : ∀ text ∈ texts.map (·.2), (Names.decode? text).isSome) :
    ∃ named, decodeNamed texts = .ok named := by
  induction texts with
  | nil => exact ⟨[], rfl⟩
  | cons entry texts ih =>
    obtain ⟨name, text⟩ := entry
    simp only [List.map_cons, List.forall_mem_cons] at h
    obtain ⟨ids, hids⟩ := Option.isSome_iff_exists.1 h.1
    obtain ⟨named, hnamed⟩ := ih h.2
    refine ⟨(name, ids) :: named, ?_⟩
    rw [decodeNamed, hids, hnamed]
    rfl

/-! ## What stands under the keys of a type -/

/-- A store keeps a text of these attributes for the ids of a type, texts of sets of ids as their
relationships, and every id with attributes among the members. -/
structure Keeps (type : String) (last : String → Option Attributes) (m : Store.Memory) : Prop where
  numbersFit : ∀ id a, last id = some a → a.NumbersFit
  attributes : ∀ id, Attributes.Held m.strings[c.attributesKey type id]? (last id)
  relationships : ∀ id name text, m.strings[c.relationshipKey type id name]? = some text →
    ∃ ids : Names, text = Names.encode ids
  members : ∀ id, (last id).isSome → id ∈ m.setOf (c.membersKey type)

/-- An empty store keeps nothing. -/
theorem keeps_empty (type : String) : c.Keeps type (fun _ => none) {} where
  numbersFit := by simp
  attributes := by simp
  relationships := by simp
  members := by simp

variable {c} {last : String → Option Attributes}

/-- An id is refused if its attributes are too deep, and is read otherwise. -/
theorem Keeps.stored (h : c.Keeps type last m) (id : String) :
    (Refused (c.stored m type id) ∨ ∃ found, c.stored m type id = .ok found) ∧
      (Refused (c.stored m type id) ↔
        ∃ a, last id = some a ∧ Document.nestingLimit < a.depth) := by
  -- relationships are always read, so only the attributes decide
  obtain ⟨named, hnamed⟩ : ∃ named, decodeRelationships (m.members (c.indexKey type))
      ((m.members (c.indexKey type)).map ((m.strings[·]?) ∘ c.relationshipKey type id)) =
        .ok named := by
    have hpresent := decodeRelationships_map (m.members (c.indexKey type))
      ((m.strings[·]?) ∘ c.relationshipKey type id)
    rw [hpresent]
    refine decodeNamed_isOk fun text htext => ?_
    obtain ⟨⟨name, text⟩, hmem, rfl⟩ := List.mem_map.1 htext
    obtain ⟨_, -, hname⟩ := List.mem_filterMap.1 hmem
    obtain ⟨text, hstored, heq⟩ := Option.map_eq_some_iff.1 hname
    obtain ⟨rfl, rfl⟩ := Prod.mk.inj heq
    obtain ⟨ids, rfl⟩ := h.relationships id _ _ hstored
    rw [Names.decode?_encode]
    rfl
  rw [KeyValueCache.stored, entityKeys, List.map_cons, List.map_map]
  have hattributes := h.attributes id
  cases hlast : last id with
  | none =>
    rw [hlast, Attributes.held_none_iff] at hattributes
    simp [hattributes, decodeEntity, not_refused_ok]
  | some a =>
    rw [hlast, Attributes.held_some_iff] at hattributes
    obtain ⟨_, htext, fields, hfields, rfl⟩ := hattributes
    have hdepth := Attributes.isSome_decode?_encode hfields (h.numbersFit id a hlast)
    simp only [htext, decodeEntity, hnamed, Option.some.injEq, exists_eq_left', ← not_le, ← hdepth]
    cases Attributes.decode? (Attributes.encode fields) with
    | none => simp [refused_error]
    | some a' => simp [Except.map, not_refused_ok]

/-! ## Writes -/

/-- Putting the entries of an item stores its attributes, unless it has none, and no others. -/
theorem held_putEntries_entries (htype : ValidType type) (item : Item) (id : String)
    (t : Std.ExtTreeMap String String) {before : Option Attributes}
    (h : Attributes.Held t[c.attributesKey type id]? before) :
    Attributes.Held (putEntries t (c.entries type item))[c.attributesKey type id]?
      (Write.attributesAfterItem id before item) := by
  rw [c.getElem?_attributesKey_putEntries htype, Write.attributesAfterItem]
  split
  case isTrue => exact .some item.isText
  case isFalse => exact h

/-- After the entries of all items, the text of an id is one of what its items leave of its
attributes. -/
theorem held_putEntries_flatMap (htype : ValidType type) (items : List Item) (id : String)
    (t : Std.ExtTreeMap String String) {before : Option Attributes}
    (h : Attributes.Held t[c.attributesKey type id]? before) :
    Attributes.Held (putEntries t (items.flatMap (c.entries type)))[c.attributesKey type id]?
      (items.foldl (Write.attributesAfterItem id) before) := by
  induction items generalizing t before with
  | nil => exact h
  | cons item items ih =>
    rw [List.flatMap_cons, putEntries_append, List.foldl_cons]
    exact ih _ (held_putEntries_entries htype item id t h)

/-- A merge leaves only texts of sets of ids as relationships. -/
theorem Merged.relationshipTexts {t : String} (ht : ValidType t) (htype : ValidType type)
    {items : List Item} (hmerged : c.Merged t items m m')
    (h : ∀ id name text, m.strings[c.relationshipKey type id name]? = some text →
      ∃ ids : Names, text = Names.encode ids) (id name text : String)
    (htext : m'.strings[c.relationshipKey type id name]? = some text) :
    ∃ ids : Names, text = Names.encode ids := by
  rw [hmerged.strings] at htext
  rcases mem_or_of_getElem?_putEntries htext with hentry | hbefore
  · obtain ⟨item, -, hentry⟩ := List.mem_flatMap.1 hentry
    rcases c.mem_entries.1 hentry with ⟨-, hkey, -⟩ | ⟨other, ids, -, -, htext⟩
    · exact absurd hkey.symm (c.attributesKey_ne_relationshipKey ht htype)
    · exact ⟨ids, htext⟩
  · exact h id name text hbefore

/-- A merge keeps a store readable: its texts are those of what the history says. -/
theorem Keeps.merge {t : String} (ht : ValidType t) (htype : ValidType type)
    (h : c.Keeps type last m) {items : List Item} (hfit : (Write.merge t items).NumbersFit)
    (hmerged : c.Merged t items m m') :
    c.Keeps type (fun id => (Write.merge t items).attributesAfter type id (last id)) m' := by
  by_cases hsame : t = type
  case neg =>
    -- the write does not touch the keys of this type
    have hlast : (fun id => (Write.merge t items).attributesAfter type id (last id)) = last :=
      funext fun id => if_neg hsame
    have hstring (id : String) : m'.strings[c.attributesKey type id]? =
        m.strings[c.attributesKey type id]? :=
      hmerged.strings_of_ne c fun item _ =>
        ⟨fun heq => hsame ((c.attributesKey_inj htype ht).1 heq).1.symm,
          fun _ _ => c.attributesKey_ne_relationshipKey htype ht⟩
    rw [hlast]
    exact ⟨h.numbersFit, fun id => hstring id ▸ h.attributes id,
      hmerged.relationshipTexts ht htype h.relationships,
      fun id hsome => (hmerged.sets _ _).2 (.inl (h.members id hsome))⟩
  subst hsame
  have hafter (id : String) : (Write.merge t items).attributesAfter t id (last id) =
      items.foldl (Write.attributesAfterItem id) (last id) := if_pos rfl
  simp only [hafter]
  refine ⟨fun id a ha => ?_, fun id => ?_, hmerged.relationshipTexts ht htype h.relationships,
    fun id hsome => ?_⟩
  · rcases Write.eq_or_mem_of_attributesAfterItem ha with hbefore | ⟨item, hitem, -, -, rfl⟩
    · exact h.numbersFit id a hbefore
    · exact hfit item hitem
  · rw [hmerged.strings]
    exact held_putEntries_flatMap htype items id m.strings (h.attributes id)
  · obtain ⟨a, ha⟩ := Option.isSome_iff_exists.1 hsome
    rw [hmerged.sets]
    rcases Write.eq_or_mem_of_attributesAfterItem ha with hbefore | ⟨item, hitem, hid, hempty, -⟩
    · exact .inl (h.members id (by rw [hbefore]; rfl))
    · exact .inr (.inr ⟨rfl, item, hitem, by rw [Entity.isBlank, hempty, Bool.false_and], hid⟩)

/-- An eviction takes the texts away together with the members. -/
theorem Keeps.evict {t : String} (ht : ValidType t) (htype : ValidType type)
    (h : c.Keeps type last m) {ids : List String} (hevicted : c.Evicted t ids m m') :
    c.Keeps type (fun id => (Write.evict t ids).attributesAfter type id (last id)) m' where
  numbersFit id a ha := by
    rw [Write.attributesAfter, Option.ite_none_left_eq_some] at ha
    exact h.numbersFit id a ha.2
  attributes id := by
    rw [hevicted.strings, Write.attributesAfter,
      if_congr (c.attributesKey_mem_evictedKeys ht htype) rfl rfl]
    split
    -- the key removed is that of the ids of the list, which have no attributes any more
    case isTrue hgone =>
      rw [if_pos ⟨hgone.1.symm, hgone.2⟩]
      exact .none
    case isFalse hleft =>
      rw [if_neg fun hgone => hleft ⟨hgone.1.symm, hgone.2⟩]
      exact h.attributes id
  relationships id name text htext := by
    rw [hevicted.strings, Option.ite_none_left_eq_some] at htext
    exact h.relationships id name text htext.2
  members id hsome := by
    rw [Write.attributesAfter, Option.isSome_iff_exists] at hsome
    obtain ⟨a, ha⟩ := hsome
    rw [Option.ite_none_left_eq_some] at ha
    rw [hevicted.mem_members c ht htype]
    exact ⟨h.members id (by rw [ha.2]; rfl), fun hgone => ha.1 ⟨hgone.1.symm, hgone.2⟩⟩

/-! ## Histories -/

/-- A write that has answered is on a valid type. -/
theorem validType_of_perform {write : Write}
    (h : Action.on Store.Memory.serve (write.perform c.writer) m = (.ok (), m')) :
    ValidType write.type := by
  by_contra htype
  cases write with
  | merge t items => cases (Action.on_validate_bind _ htype _ m).symm.trans h
  | evict t ids => cases (Action.on_validate_bind _ htype _ m).symm.trans h

/-- Every write that answers keeps up what a store keeps of a type. -/
theorem Keeps.perform (htype : ValidType type) (h : c.Keeps type last m) {write : Write}
    (hfit : write.NumbersFit)
    (hrun : Action.on Store.Memory.serve (write.perform c.writer) m = (.ok (), m')) :
    c.Keeps type (fun id => write.attributesAfter type id (last id)) m' := by
  have ht := validType_of_perform hrun
  cases write with
  | merge t items =>
    obtain ⟨m₁, hmerge, hmerged⟩ := c.on_mergeAll ht items m
    cases hmerge.symm.trans hrun
    exact h.merge ht htype hfit hmerged
  | evict t ids =>
    obtain ⟨m₁, hevict, hevicted⟩ := c.on_evictAll ht ids m
    cases hevict.symm.trans hrun
    exact h.evict ht htype hevicted

/-- So does a history of writes. -/
theorem Keeps.performAll (htype : ValidType type) {history : List Write}
    (hfit : ∀ write ∈ history, write.NumbersFit) (h : c.Keeps type last m)
    (hrun : Action.on Store.Memory.serve (Write.performAll c.writer history) m = (.ok (), m')) :
    c.Keeps type (fun id => history.foldl (Write.attributesAfter type id) (last id)) m' := by
  induction history generalizing last m with
  | nil =>
    cases hrun
    exact h
  | cons write rest ih =>
    obtain ⟨_, m₁, hwrite, hrest⟩ := Action.exists_of_on_bind_ok _ hrun
    exact ih (fun other hother => hfit other (List.mem_cons_of_mem _ hother))
      (h.perform htype (hfit write List.mem_cons_self) hwrite) hrest

/-- A history that answers has no attributes for a type that is not valid. -/
theorem lastAttributes_eq_none (htype : ¬ValidType type) {history : List Write}
    (hrun : Action.on Store.Memory.serve (Write.performAll c.writer history) m = (.ok (), m'))
    (id : String) : Write.lastAttributes history type id = none := by
  rw [Write.lastAttributes]
  induction history generalizing m with
  | nil => rfl
  | cons write rest ih =>
    obtain ⟨_, m₁, hwrite, hrest⟩ := Action.exists_of_on_bind_ok _ hrun
    have hne : write.type ≠ type := fun heq => htype (heq ▸ validType_of_perform hwrite)
    have hnone : write.attributesAfter type id none = none := by
      cases write with
      | merge t items => exact if_neg hne
      | evict t ids => exact ite_self _
    rw [List.foldl_cons, hnone]
    exact ih hrest

/-! ## Reads in memory -/

/-- Reads of a valid type come upon the ids whose attributes are too deep. -/
theorem Keeps.refusesDeep (htype : ValidType type) (h : c.Keeps type last m) :
    c.RefusesDeep Store.Memory.serve m type
      fun id => ∃ a, last id = some a ∧ Document.nestingLimit < a.depth := by
  have hread (ids : List String) := @refused_readEach _ ids fun id => (h.stored id).1
  refine ⟨fun id => ?_, fun ids => ?_, ?_⟩
  · rw [c.on_get htype]
    exact (h.stored id).2
  · show Refused (Action.on Store.Memory.serve (c.getAllByIds type ids) m).1 ↔ _
    rw [c.on_getAllByIds htype, hread]
    simp only [mem_distinct, (h.stored _).2]
  · show Refused (Action.on Store.Memory.serve (c.getAll type) m).1 ↔ _
    rw [c.on_getAll htype, hread]
    simp only [Store.Memory.mem_members, (h.stored _).2]
    refine exists_congr fun id => and_iff_right_of_imp ?_
    rintro ⟨a, ha, -⟩
    exact h.members id (by rw [ha]; rfl)

/-- A type that is not valid is refused as such. -/
theorem refusesDeep_of_not_validType (htype : ¬ValidType type) :
    c.RefusesDeep Store.Memory.serve m type fun _ => False := by
  have hmany (ids : List String) : Action.on Store.Memory.serve (c.reader.getAllByIds type ids) m =
      (.error (.invalidType type), m) := Action.on_validate_bind _ htype _ m
  have hall : Action.on Store.Memory.serve (c.reader.getAll type) m =
      (.error (.invalidType type), m) := by
    show Action.on Store.Memory.serve (c.getIdentifiers type >>= c.getAllByIds type) m = _
    rw [getIdentifiers, Action.on_bind, Action.on_validate_bind _ htype]
  refine ⟨fun id => ?_, fun ids => ?_, ?_⟩
  · have hone : Action.on Store.Memory.serve (c.reader.get type id) m =
        (.error (.invalidType type), m) := by
      rw [Reader.get, Action.on_bind, hmany]
    simp [hone, not_refused_invalidType]
  · simp [hmany, not_refused_invalidType]
  · simp [hall, not_refused_invalidType]

/-! ## Both kinds of stores -/

/-- An operation that adds something whenever it adds to a set. -/
def Action.Adds (a : Action α) : Prop := a.run.Asks Store.Request.Adds

/-- Operations that only add to sets with members do so in turn. -/
theorem Action.Adds.bind {a : Action α} {f : α → Action β} (ha : a.Adds) (hf : ∀ x, (f x).Adds) :
    (a >>= f).Adds :=
  Action.Asks.bind ha hf

/-- A request that only looks adds nothing. -/
theorem Looks.adds {r : Store.Request} (h : c.Looks type r) : r.Adds := (Makes.look h).adds

theorem adds_getAllByIds (type : String) (ids : List String) :
    Action.Adds (c.reader.getAllByIds type ids) :=
  (asks_getAllByIds type ids).mono fun _ h => h.adds

theorem adds_getAll (type : String) : Action.Adds (c.reader.getAll type) :=
  (asks_getAll type).mono fun _ h => h.adds

theorem adds_get (type id : String) : Action.Adds (c.reader.get type id) :=
  (asks_get type id).mono fun _ h => h.adds

/-- A merge never adds an empty list of members. -/
theorem adds_mergeAll (type : String) (items : List Item) : (c.mergeAll type items).Adds :=
  (asks_mergeAll type items).mono fun _ h => h.adds

/-- An eviction never adds an empty list of members. -/
theorem adds_evictAll (type : String) (ids : List String) : (c.evictAll type ids).Adds :=
  (asks_evictAll type ids).mono fun _ h => h.adds

/-- No history adds an empty list of members. -/
theorem adds_performAll (history : List Write) :
    Action.Adds (Write.performAll c.writer history) := by
  induction history with
  | nil => exact asks_pure ()
  | cons write rest ih =>
    refine Action.Adds.bind ?_ fun _ => ih
    cases write with
    | merge t items => exact adds_mergeAll t items
    | evict t ids => exact adds_evictAll t ids

/-- A history on a store that has just been made leaves a store that cannot be told from the one
that the history leaves in memory. -/
theorem exists_twin_of_performAll {start s : Store.Backing} (hstart : start.Fresh)
    {history : List Write}
    (hrun : Action.on Store.Backing.serve (Write.performAll c.writer history) start = (.ok (), s)) :
    ∃ m, Action.on Store.Memory.serve (Write.performAll c.writer history) {} = (.ok (), m) ∧
      s.Twin m := by
  obtain ⟨hresult, htwin⟩ := hstart.twin.run (@adds_performAll c history)
  have hbacking : Program.run Store.Backing.serve (Write.performAll c.writer history).run start =
    (.ok (), s) := hrun
  rw [hbacking] at hresult htwin
  exact ⟨_, Prod.ext hresult.symm rfl, htwin⟩

/-- After a history on a store that has just been made, an operation has the result that it has
after the history in memory. -/
theorem exists_memory_of_performAll {start s : Store.Backing} (hstart : start.Fresh)
    {history : List Write}
    (hrun : Action.on Store.Backing.serve (Write.performAll c.writer history) start = (.ok (), s)) :
    ∃ m, Action.on Store.Memory.serve (Write.performAll c.writer history) {} = (.ok (), m) ∧
      ∀ {γ : Type} (a : Action γ), a.Adds →
        (Action.on Store.Backing.serve a s).1 = (Action.on Store.Memory.serve a m).1 := by
  obtain ⟨m, hmemory, htwin⟩ := exists_twin_of_performAll hstart hrun
  exact ⟨m, hmemory, fun a ha => (htwin.run ha).1⟩

/-- Writes on valid types all answer. -/
theorem exists_performAll {start : Store.Backing} (hstart : start.Fresh) {history : List Write}
    (htypes : ∀ write ∈ history, ValidType write.type) :
    ∃ s, Action.on Store.Backing.serve (Write.performAll c.writer history) start = (.ok (), s) := by
  obtain ⟨m, hmemory, -⟩ := Write.performAll_on c (P := fun _ => True) (m := {})
    (fun write hwrite m _ => by
      have ht := htypes write hwrite
      cases write with
      | merge t items =>
        obtain ⟨m', hmerge, -⟩ := c.on_mergeAll ht items m
        exact ⟨m', hmerge, trivial⟩
      | evict t ids =>
        obtain ⟨m', hevict, -⟩ := c.on_evictAll ht ids m
        exact ⟨m', hevict, trivial⟩) trivial
  have hsame := hstart.run_eq (@adds_performAll c history)
  exact ⟨_, Prod.ext (hsame.trans (congrArg Prod.fst hmemory)) rfl⟩

/-- After any history of writes that have all answered, on an empty store in memory. -/
theorem refusesDeep_memory {history : List Write} (hfit : ∀ write ∈ history, write.NumbersFit)
    (hrun : Action.on Store.Memory.serve (Write.performAll c.writer history) {} = (.ok (), m))
    (type : String) : c.RefusesDeep Store.Memory.serve m type (Write.Deep history type) := by
  by_cases htype : ValidType type
  · exact ((c.keeps_empty type).performAll htype hfit hrun).refusesDeep htype
  · have hnot : Write.Deep history type = fun _ => False := by
      funext id
      simp [Write.Deep, lastAttributes_eq_none htype hrun id]
    rw [hnot]
    exact refusesDeep_of_not_validType htype

/-- After any history of writes that have all answered, on a store of either kind that was empty, a
read is refused exactly if it comes upon an id whose last attributes are too deep. -/
theorem refusesDeep_performAll {start s : Store.Backing} (hstart : start.Fresh)
    {history : List Write} (hfit : ∀ write ∈ history, write.NumbersFit)
    (hrun : Action.on Store.Backing.serve (Write.performAll c.writer history) start = (.ok (), s))
    (type : String) :
    c.RefusesDeep Store.Backing.serve s type (Write.Deep history type) := by
  obtain ⟨m, hmemory, hsame⟩ := exists_memory_of_performAll hstart hrun
  have h := refusesDeep_memory hfit hmemory type
  refine ⟨fun id => ?_, fun ids => ?_, ?_⟩
  · rw [hsame (c.reader.get type id) (adds_get type id)]
    exact h.get id
  · rw [hsame (c.reader.getAllByIds type ids) (adds_getAllByIds type ids)]
    exact h.getAllByIds ids
  · rw [hsame (c.reader.getAll type) (adds_getAll type)]
    exact h.getAll

/-! ## A map that is too deep -/

/-- Null in this many arrays. -/
def nested : Nat → Json
  | 0 => .null
  | n + 1 => .array [nested n]

/-- Each array is a level more. -/
theorem depth_nested (n : Nat) : (nested n).depth = n := by
  induction n with
  | zero => rfl
  | succ n ih => simp [nested, Json.depth, Json.depthItems, ih]

theorem numbersFit_nested (n : Nat) : (nested n).NumbersFit := by
  induction n with
  | zero => simp [nested, Json.NumbersFit]
  | succ n ih => simp [nested, Json.NumbersFit, Json.NumbersFitItems, ih]

/-- An item whose one attribute is that deep. -/
def nestedItem (id : String) (n : Nat) : Item :=
  ({ id, attributes := ({} : Attributes).insert "a" (nested n) } : Entity).listed

/-- The attributes of the item are a level above the value. -/
theorem depth_nestedItem (id : String) (n : Nat) : (nestedItem id n).attributes.depth = n + 1 := by
  have hlist : (nestedItem id n).attributes.toList = [("a", nested n)] := rfl
  rw [Attributes.depth, hlist, Json.depth, Json.depthFields, Json.depthFields, depth_nested]
  omega

theorem numbersFit_nestedItem (id : String) (n : Nat) : (nestedItem id n).attributes.NumbersFit :=
  ⟨numbersFit_nested n, trivial⟩

/-- Two items, the second of them too deep by one level. -/
def nestedHistory : List Write := [.merge "type" [nestedItem "i" 126, nestedItem "j" 127]]

theorem numbersFit_nestedHistory : ∀ write ∈ nestedHistory, write.NumbersFit := by
  simp only [nestedHistory, forall_eq, Write.NumbersFit, List.mem_cons,
    List.not_mem_nil, or_false]
  rintro item (rfl | rfl)
  · exact numbersFit_nestedItem "i" 126
  · exact numbersFit_nestedItem "j" 127

/-- Of the two items of the history only `j` has too many levels. -/
theorem deep_nestedHistory : Write.Deep nestedHistory "type" = (· = "j") := by
  funext id
  have hlast : Write.lastAttributes nestedHistory "type" id =
      if id = "j" then some (nestedItem "j" 127).attributes
      else if id = "i" then some (nestedItem "i" 126).attributes else none := by
    simp [Write.lastAttributes, nestedHistory, Write.attributesAfter, Write.attributesAfterItem,
      nestedItem, @eq_comm _ id]
  rw [Write.Deep, hlast, Document.nestingLimit, eq_iff_iff]
  by_cases hj : id = "j"
  · simp [hj, depth_nestedItem]
  · by_cases hi : id = "i"
    · simp [hi, depth_nestedItem]
    · simp [hj, hi]

/-- On an empty database the history is written without a failure, and what refuses later is `j`. -/
theorem refusesDeep_performAll_nested :
    ∃ s, Action.on Store.Backing.serve (Write.performAll (mk "fleetcache").writer nestedHistory)
        (.database {}) = (.ok (), s) ∧
      (mk "fleetcache").RefusesDeep Store.Backing.serve s "type" (· = "j") := by
  obtain ⟨s, hrun⟩ := @exists_performAll (mk "fleetcache") _ (.inr rfl) nestedHistory (by decide)
  refine ⟨s, hrun, ?_⟩
  rw [← deep_nestedHistory]
  exact refusesDeep_performAll (.inr rfl) numbersFit_nestedHistory hrun "type"

/-- What has been merged cannot always be read. -/
theorem not_always_read : ¬∀ (history : List Write) (s : Store.Backing),
    (∀ write ∈ history, write.NumbersFit) →
    Action.on Store.Backing.serve (Write.performAll (mk "fleetcache").writer history)
      (.memory {}) = (.ok (), s) →
    ∀ type, (mk "fleetcache").RefusesDeep Store.Backing.serve s type fun _ => False := by
  intro h
  obtain ⟨s, hrun⟩ := @exists_performAll (mk "fleetcache") _ (.inl rfl) nestedHistory (by decide)
  obtain ⟨m, hmemory, hsame⟩ := exists_memory_of_performAll (.inl rfl) hrun
  have hget := (h _ s numbersFit_nestedHistory hrun "type").get "j"
  rw [hsame _ (adds_get "type" "j")] at hget
  have hdeep := (refusesDeep_memory numbersFit_nestedHistory hmemory "type").get "j"
  rw [deep_nestedHistory] at hdeep
  exact hget.1 (hdeep.2 rfl)

end KeyValueCache

end EntityCache
