import EntityCache.Proofs.Cache.Refinement
import Mathlib.Data.Set.Insert

/-!
# Whether the entities of a type are isolated

The relationship `R` of the id `I` is stored under `P:T:relationships:I:R`.  Neither `I` nor `R` is
held to anything, so the relationships of two ids may share a key, and then a write that mentions
only one of the ids changes what is read for the other.

`isolates_iff_separable` says for which relationship names this cannot happen: exactly when no name
is another one behind a colon.  In one direction the index carries the argument.  It may grow by a
write on one id and make readers of all ids look for more relationships, but a relationship that is
there has been indexed before (`Indexed`), so what they find in addition is nothing.
-/

namespace EntityCache

namespace KeyValueCache

variable (c : KeyValueCache) {names : Set String} {type type' : String} {m m' : Store.Memory}

/-! ## Isolation -/

/-- The store after a history, from an empty one. -/
def storeAfter (history : List Write) : Store.Memory :=
  (Action.on Store.Memory.serve (Write.performAll c.writer history) {}).2

/-- Whatever the history, with relationship names of the set, a write that mentions one id of a type
changes nothing in what is read for another. -/
def Isolates (names : Set String) : Prop :=
  ∀ history : List Write, (∀ write ∈ history, write.Within names) →
    ∀ (write : Write) (type i j : String), write.Within names → write.OnlyOn type i → i ≠ j →
      let after := (Action.on Store.Memory.serve (write.perform c.writer) (c.storeAfter history)).2
      (Action.on Store.Memory.serve (c.reader.get type j) after).1 =
        (Action.on Store.Memory.serve (c.reader.get type j) (c.storeAfter history)).1

/-! ## What a reader finds -/

/-- What is present are the names known that have a text. -/
theorem mem_present {known : List String} {f : String → Option String} {name text : String} :
    (name, text) ∈ present known f ↔ name ∈ known ∧ f name = some text := by
  simp only [present, List.mem_filterMap, Option.map_eq_some_iff, Prod.mk.injEq]
  constructor
  · rintro ⟨other, hknown, text', htext, rfl, rfl⟩
    exact ⟨hknown, htext⟩
  · rintro ⟨hknown, htext⟩
    exact ⟨name, hknown, text, htext, rfl, rfl⟩

/-- The names present keep the order of the names known. -/
theorem present_sorted {known : List String} (h : known.Pairwise (· < ·))
    (f : String → Option String) : (present known f).Pairwise fun p q => p.1 < q.1 := by
  rw [present, List.pairwise_filterMap]
  refine h.imp fun {a b} hlt p hp q hq => ?_
  obtain ⟨text, -, rfl⟩ := Option.map_eq_some_iff.1 hp
  obtain ⟨text', -, rfl⟩ := Option.map_eq_some_iff.1 hq
  exact hlt

/-- Sorted lists of known names that find the same relationships find them in the same order. -/
theorem present_eq {known known' : List String} {f f' : String → Option String}
    (hsorted : known.Pairwise (· < ·)) (hsorted' : known'.Pairwise (· < ·))
    (h : ∀ name text, name ∈ known ∧ f name = some text ↔ name ∈ known' ∧ f' name = some text) :
    present known f = present known' f' := by
  have hnodup {l : List (String × String)} (hl : l.Pairwise fun p q => p.1 < q.1) : l.Nodup :=
    hl.imp fun {p q} hlt heq => String.ne_of_lt hlt (congrArg Prod.fst heq)
  refine List.Perm.eq_of_pairwise (fun a b _ _ hab hba => absurd hab (lt_asymm hba))
    (present_sorted hsorted f) (present_sorted hsorted' f') ?_
  refine (List.perm_ext_iff_of_nodup (hnodup (present_sorted hsorted f))
    (hnodup (present_sorted hsorted' f'))).2 ?_
  rintro ⟨name, text⟩
  rw [mem_present, mem_present, h]

/-- An id reads the same in two stores that have the same strings for it, as far as the indexes make
them known. -/
theorem stored_congr {id : String}
    (hattributes : m'.strings[c.attributesKey type id]? = m.strings[c.attributesKey type id]?)
    (hrelationships : ∀ name text, name ∈ m'.setOf (c.indexKey type) ∧
        m'.strings[c.relationshipKey type id name]? = some text ↔
      name ∈ m.setOf (c.indexKey type) ∧
        m.strings[c.relationshipKey type id name]? = some text) :
    c.stored m' type id = c.stored m type id := by
  -- only names of the index are looked up, so texts under other names do not count
  have hpresent : present (m'.members (c.indexKey type))
        (fun name => m'.strings[c.relationshipKey type id name]?) =
      present (m.members (c.indexKey type))
        fun name => m.strings[c.relationshipKey type id name]? := by
    apply present_eq (m'.members_sorted _) (m.members_sorted _)
    intro name text
    rw [Store.Memory.mem_members, Store.Memory.mem_members, hrelationships]
  simp only [stored, entityKeys, List.map_cons, List.map_map, hattributes]
  cases m.strings[c.attributesKey type id]? with
  | none => rfl
  | some text =>
    simp only [decodeEntity]
    cases Attributes.decode? text with
    | none => rfl
    | some attributes =>
      have hdecode (known : List String) (strings : Std.ExtTreeMap String String) :
          decodeRelationships known
              (known.map ((strings[·]?) ∘ c.relationshipKey type id)) =
            decodeNamed (present known fun name => strings[c.relationshipKey type id name]?) :=
        decodeRelationships_map known _
      simp only [hdecode, hpresent]

/-! ## The index covers what is there -/

/-- The index of a type has names of the set, and has the name of every relationship that is
there. -/
structure Indexed (names : Set String) (type : String) (m : Store.Memory) : Prop where
  within : ∀ name ∈ m.setOf (c.indexKey type), name ∈ names
  covers : ∀ (id : String), ∀ name ∈ names,
    m.strings[c.relationshipKey type id name]?.isSome → name ∈ m.setOf (c.indexKey type)

/-- A merge adds the names that it writes to the index of its type, and to that of no other. -/
theorem Indexed.merge (hnames : Separable names) (htype : ValidType type)
    (htype' : ValidType type') (h : c.Indexed names type' m) {items : List Item}
    (hmerged : c.Merged type items m m')
    (hitems : ∀ item ∈ items, ∀ name ∈ item.relationships, name ∈ names) :
    c.Indexed names type' m' where
  within name hname := by
    rcases (hmerged.sets _ _).1 hname with hold | ⟨-, hnew⟩ | ⟨hkey, -⟩
    · exact h.within name hold
    · obtain ⟨item, hitem, hmem⟩ := mem_relationshipNames.1 hnew
      exact hitems item hitem name hmem
    · exact absurd hkey (c.indexKey_ne_membersKey htype' htype)
  covers id name hname hsome := by
    rw [hmerged.sets]
    -- either an item has written this very relationship, or it was there before
    by_cases hwritten : type' = type ∧ ∃ item ∈ items, name ∈ item.relationships
    · obtain ⟨rfl, hmem⟩ := hwritten
      exact .inr (.inl ⟨rfl, mem_relationshipNames.2 hmem⟩)
    · refine .inl (h.covers id name hname ?_)
      rw [← hmerged.strings_of_ne c fun item hitem => ⟨?_, fun other hother heq => ?_⟩]
      · exact hsome
      · exact (c.attributesKey_ne_relationshipKey htype htype').symm
      · obtain ⟨rfl, -, rfl⟩ := (c.relationshipKey_inj hnames htype' htype hname
          (hitems item hitem other hother)).1 heq
        exact hwritten ⟨rfl, item, hitem, hother⟩

/-- An eviction leaves every index. -/
theorem Indexed.evict (htype : ValidType type) (htype' : ValidType type')
    (h : c.Indexed names type' m) {ids : List String} (hevicted : c.Evicted type ids m m') :
    c.Indexed names type' m' where
  within name hname := h.within name ((hevicted.mem_index c htype htype').1 hname)
  covers id name hname hsome := by
    rw [hevicted.strings] at hsome
    split at hsome
    · exact absurd hsome (by simp)
    · exact (hevicted.mem_index c htype htype').2 (h.covers id name hname hsome)

/-! ## Separable names isolate -/

/-- A merge that mentions one id leaves what is read for another. -/
theorem stored_merge (hnames : Separable names) (htype : ValidType type)
    (h : c.Indexed names type m) {items : List Item} (hmerged : c.Merged type items m m')
    (hitems : ∀ item ∈ items, ∀ name ∈ item.relationships, name ∈ names) {i j : String}
    (honly : ∀ item ∈ items, item.id = i) (hne : i ≠ j) :
    c.stored m' type j = c.stored m type j := by
  have hafter := h.merge c hnames htype htype hmerged hitems
  -- the strings of the other id are as they were, those of the names of the set
  have hstring {name : String} (hname : name ∈ names) :
      m'.strings[c.relationshipKey type j name]? = m.strings[c.relationshipKey type j name]? := by
    refine hmerged.strings_of_ne c fun item hitem => ⟨?_, fun other hother heq => ?_⟩
    · exact (c.attributesKey_ne_relationshipKey htype htype).symm
    · have hid := ((c.relationshipKey_inj hnames htype htype hname
        (hitems item hitem other hother)).1 heq).2.1
      exact hne ((honly item hitem).symm.trans hid.symm)
  apply c.stored_congr
  · refine hmerged.strings_of_ne c fun item hitem => ⟨fun heq => ?_, fun other _ => ?_⟩
    · exact hne ((honly item hitem).symm.trans ((c.attributesKey_inj htype htype).1 heq).2.symm)
    · exact c.attributesKey_ne_relationshipKey htype htype
  · intro name text
    constructor
    · -- a name that has just been indexed is read for this id too, and found only where it was
      -- indexed before
      rintro ⟨hindexed, htext⟩
      have hname := hafter.within name hindexed
      rw [hstring hname] at htext
      exact ⟨h.covers j name hname (by rw [htext]; rfl), htext⟩
    · rintro ⟨hindexed, htext⟩
      have hname := h.within name hindexed
      exact ⟨(hmerged.sets _ _).2 (.inl hindexed), (hstring hname).trans htext⟩

/-- An eviction that mentions one id leaves what is read for another. -/
theorem stored_evict (hnames : Separable names) (htype : ValidType type)
    (h : c.Indexed names type m) {ids : List String} (hevicted : c.Evicted type ids m m')
    {i j : String} (honly : ∀ id ∈ ids, id = i) (hne : i ≠ j) :
    c.stored m' type j = c.stored m type j := by
  have hmem : j ∉ ids := fun hj => hne (honly j hj).symm
  apply c.stored_congr
  · rw [hevicted.strings, if_neg]
    rw [c.attributesKey_mem_evictedKeys htype htype]
    exact fun hmem' => hmem hmem'.2
  · intro name text
    rw [hevicted.mem_index c htype htype]
    refine and_congr_right fun hindexed => ?_
    rw [hevicted.strings, if_neg]
    rw [c.relationshipKey_mem_evictedKeys hnames htype h.within (h.within name hindexed)]
    exact fun hmem' => hmem hmem'.1

/-- Every history within the names keeps up the indexes of all valid types. -/
theorem indexed_storeAfter (hnames : Separable names) {history : List Write}
    (hwithin : ∀ write ∈ history, write.Within names) (htype : ValidType type) :
    c.Indexed names type (c.storeAfter history) := by
  obtain ⟨m, hrun, h⟩ := Write.performAll_on c
    -- all types at once, as a write of one type must keep the index of the others
    (P := fun m => ∀ type, ValidType type → c.Indexed names type m)
    (fun write (hwrite : write ∈ history) m h => by
      cases write with
      | merge t items =>
        obtain ⟨ht, hitems⟩ := hwithin _ hwrite
        obtain ⟨m', hrun, hmerged⟩ := c.on_mergeAll ht items m
        exact ⟨m', hrun, fun type htype => (h type htype).merge c hnames ht htype hmerged hitems⟩
      | evict t ids =>
        have ht : ValidType t := hwithin _ hwrite
        obtain ⟨m', hrun, hevicted⟩ := c.on_evictAll ht ids m
        exact ⟨m', hrun, fun type htype => (h type htype).evict c ht htype hevicted⟩)
    (m := {}) fun type _ => ⟨by simp [Store.Memory.setOf], by simp⟩
  rw [storeAfter, hrun]
  exact h type htype

/-- With separable names, each relationship has a key of its own. -/
theorem isolates_of_separable (hnames : Separable names) : c.Isolates names := by
  intro history hhistory write type i j hwithin honly hne
  -- the write is of the type itself, as one of another type shares no key with it
  cases write with
  | merge t items =>
    obtain ⟨rfl, honly⟩ := honly
    obtain ⟨htype, hitems⟩ := hwithin
    obtain ⟨m', hrun, hmerged⟩ := c.on_mergeAll htype items (c.storeAfter history)
    have hafter : (Action.on Store.Memory.serve ((Write.merge t items).perform c.writer)
        (c.storeAfter history)).2 = m' := congrArg Prod.snd hrun
    simp only [hafter, c.on_get htype]
    exact c.stored_merge hnames htype (c.indexed_storeAfter hnames hhistory htype) hmerged hitems
      honly hne
  | evict t ids =>
    obtain ⟨rfl, honly⟩ := honly
    have htype : ValidType t := hwithin
    obtain ⟨m', hrun, hevicted⟩ := c.on_evictAll htype ids (c.storeAfter history)
    have hafter : (Action.on Store.Memory.serve ((Write.evict t ids).perform c.writer)
        (c.storeAfter history)).2 = m' := congrArg Prod.snd hrun
    simp only [hafter, c.on_get htype]
    exact c.stored_evict hnames htype (c.indexed_storeAfter hnames hhistory htype) hevicted honly
      hne

/-! ## Other names do not -/

/-- Texts that are all read are read one by one. -/
theorem decodeNamed_eq_ok {texts : List (String × String)} {named : List (String × Names)}
    (h : decodeNamed texts = .ok named) :
    named.map (·.1) = texts.map (·.1) ∧
      ∀ name text, (name, text) ∈ texts → ∃ ids, Names.decode? text = some ids ∧
        (name, ids) ∈ named := by
  induction texts generalizing named with
  | nil =>
    cases h
    simp
  | cons entry texts ih =>
    obtain ⟨name, text⟩ := entry
    unfold decodeNamed at h
    split at h
    case h_1 => cases h
    case h_2 ids hids =>
      cases hrest : decodeNamed texts with
      | error e => rw [hrest] at h; cases h
      | ok rest =>
        rw [hrest] at h
        cases h
        obtain ⟨hnames, hmem⟩ := ih hrest
        refine ⟨by simp [hnames], fun other text' hother => ?_⟩
        rcases List.mem_cons.1 hother with heq | hother
        -- the pair is the first, or one of the rest, which is decoded by induction
        · cases heq
          exact ⟨ids, hids, by simp⟩
        · obtain ⟨ids', hids', hmem'⟩ := hmem other text' hother
          exact ⟨ids', hids', by simp [hmem']⟩

/-- A known relationship of an entity that is read is the one in the string of its key. -/
theorem related_of_stored {id : String} {e : Entity} (h : c.stored m type id = .ok (some e))
    {name text : String} (hindexed : name ∈ m.setOf (c.indexKey type))
    (htext : m.strings[c.relationshipKey type id name]? = some text) :
    e.relationships[name]? = Names.decode? text := by
  have hpresent : (name, text) ∈ present (m.members (c.indexKey type))
      fun name => m.strings[c.relationshipKey type id name]? :=
    mem_present.2 ⟨Store.Memory.mem_members.2 hindexed, htext⟩
  have hsorted := present_sorted (m.members_sorted (c.indexKey type))
    fun name => m.strings[c.relationshipKey type id name]?
  have hdecode : decodeRelationships (m.members (c.indexKey type))
      ((m.members (c.indexKey type)).map ((m.strings[·]?) ∘ c.relationshipKey type id)) =
      decodeNamed (present (m.members (c.indexKey type))
        fun name => m.strings[c.relationshipKey type id name]?) :=
    decodeRelationships_map _ _
  rw [stored, entityKeys, List.map_cons, List.map_map] at h
  cases hattributes : m.strings[c.attributesKey type id]? with
  | none => rw [hattributes] at h; cases h
  | some attributesText =>
    rw [hattributes, decodeEntity] at h
    split at h
    case h_1 => cases h
    case h_2 attributes _ =>
      rw [hdecode] at h
      cases hnamed : decodeNamed (present (m.members (c.indexKey type))
          fun name => m.strings[c.relationshipKey type id name]?) with
      | error e => rw [hnamed] at h; cases h
      | ok named =>
        rw [hnamed] at h
        cases h
        obtain ⟨hnames, hmem⟩ := decodeNamed_eq_ok hnamed
        obtain ⟨ids, hids, hmem⟩ := hmem name text hpresent
        -- the names that are read are distinct, as those of the index are
        have hdistinct : named.Pairwise fun a b => ¬compare a.1 b.1 = .eq := by
          have hlt := List.pairwise_map.2 hsorted
          rw [← hnames, List.pairwise_map] at hlt
          exact hlt.imp fun hlt heq => String.ne_of_lt hlt (compare_eq_iff_eq.1 heq)
        rw [hids]
        exact Std.ExtTreeMap.getElem?_ofList_of_mem Std.ReflCmp.compare_self hdistinct hmem

/-- One name alone is separable. -/
theorem separable_singleton (s : String) : Separable {s} := by
  rintro _ rfl _ rfl t h
  have hlength := congrArg (fun x => x.toList.length) h
  simp [String.toList_append] at hlength
  omega

/-- An entity with one attribute and one relationship. -/
def relatedEntity (id name : String) : Entity :=
  ⟨id, (∅ : Attributes).insert "name" .null, (∅ : Relationships).insert name (.ofList ["related"])⟩

/-- A write that leaves an id without related ids. -/
def unrelate (type id name : String) : Write :=
  .merge type [(⟨id, ∅, (∅ : Relationships).insert name ∅⟩ : Entity).listed]

/-- The entity has no attributes to misread. -/
theorem relatedEntity_readable (id name : String) :
    (relatedEntity id name).attributes.Readable := by
  have hlist : (relatedEntity id name).attributes.toList = [("name", .null)] := rfl
  constructor <;> rw [hlist]
  · decide
  · exact ⟨trivial, trivial⟩
  · exact ⟨trivial, trivial⟩

/-- After its merge the entity is read. -/
theorem stored_relatedEntity {type : String} (htype : ValidType type) (id name : String) :
    c.stored (c.storeAfter [.merge type [(relatedEntity id name).listed]]) type id =
        .ok (some (relatedEntity id name)) ∧
      name ∈ (c.storeAfter [.merge type [(relatedEntity id name).listed]]).setOf
        (c.indexKey type) := by
  obtain ⟨m, hrun, hmerged⟩ := c.on_mergeAll htype [(relatedEntity id name).listed] {}
  have hafter : c.storeAfter [.merge type [(relatedEntity id name).listed]] = m := by
    have hperform : Action.on Store.Memory.serve
        ((Write.merge type [(relatedEntity id name).listed]).perform c.writer) {} =
          (.ok (), m) := hrun
    rw [storeAfter, Write.performAll, Action.on_bind_ok _ _ hperform]
    rfl
  have hnames : ∀ item ∈ [(relatedEntity id name).listed], ∀ other ∈ item.relationships,
      other ∈ ({name} : Set String) := by
    simp [relatedEntity]
  have hempty : c.Mirrors {name} type {} ∅ := c.mirrors_empty
  -- the store mirrors the entities of a direct cache after the same merge
  have hmirrors := hempty.merge c
    (separable_singleton name) htype hmerged hnames
    (by simpa using relatedEntity_readable id name)
  have hvisible : (relatedEntity id name).isVisible = true := by
    simp [relatedEntity, Entity.isVisible]
  have hblank : (relatedEntity id name).isBlank = false := by
    simp [relatedEntity, Entity.isBlank]
  rw [hafter]
  constructor
  · rw [hmirrors.stored c id, List.foldl_cons, List.foldl_nil, DirectCache.getElem?_mergeItem,
      if_pos ⟨hblank, rfl⟩]
    simp [DirectCache.laidOver, Option.filter, hvisible]
  · refine (hmerged.sets _ _).2 (.inr (.inl ⟨rfl, mem_relationshipNames.2
      ⟨(relatedEntity id name).listed, by simp, ?_⟩⟩))
    simp [relatedEntity]

/-- An unrelated id has the text of the empty set. -/
theorem Merged.strings_unrelate {id name : String}
    (hmerged : c.Merged type
      [(⟨id, ∅, (∅ : Relationships).insert name ∅⟩ : Entity).listed] m m') :
    m'.strings[c.relationshipKey type id name]? = some (Names.encode ∅) := by
  rw [hmerged.strings]
  apply getElem?_putEntries_of_mem
  · exact List.mem_flatMap.2 ⟨_, List.mem_singleton_self _,
      c.mem_entries.2 (.inr ⟨name, ∅, by simp, rfl, rfl⟩)⟩
  -- no other entry of the item has this key
  · intro text htext
    obtain ⟨item, hitem, hentry⟩ := List.mem_flatMap.1 htext
    rw [List.mem_singleton] at hitem
    subst hitem
    rcases c.mem_entries.1 hentry with ⟨hattributes, -⟩ | ⟨other, ids, hids, -, htext⟩
    · simp at hattributes
    · rw [Entity.toEntity_listed, Std.ExtTreeMap.getElem?_insert] at hids
      split at hids
      · rw [htext, ← Option.some.inj hids]
      · simp at hids

/-- Two ids whose relationships share a key: unrelating one unrelates the other. -/
theorem not_isolates {t s : String} (hs : s ∈ names) (hr : t ++ ":" ++ s ∈ names) :
    ¬c.Isolates names := by
  intro hisolates
  have htype : ValidType "type" := by decide
  have hkey : c.relationshipKey "type" ("a" ++ ":" ++ t) s =
      c.relationshipKey "type" "a" (t ++ ":" ++ s) :=
    (c.relationshipKey_eq_iff htype htype).2 ⟨rfl, by simp [String.append_assoc]⟩
  obtain ⟨hbefore, hindexed⟩ := c.stored_relatedEntity htype ("a" ++ ":" ++ t) s
  obtain ⟨m, hrun, hmerged⟩ := c.on_mergeAll htype
    [(⟨"a", ∅, (∅ : Relationships).insert (t ++ ":" ++ s) ∅⟩ : Entity).listed]
    (c.storeAfter [.merge "type" [(relatedEntity ("a" ++ ":" ++ t) s).listed]])
  -- the other id is read as before, although its string is now that of the empty set
  have hafter : c.stored m "type" ("a" ++ ":" ++ t) =
      .ok (some (relatedEntity ("a" ++ ":" ++ t) s)) := by
    have hsame := hisolates [.merge "type" [(relatedEntity ("a" ++ ":" ++ t) s).listed]]
      (by simpa [Write.Within, relatedEntity] using ⟨htype, hs⟩)
      (unrelate "type" "a" (t ++ ":" ++ s)) "type" "a" ("a" ++ ":" ++ t)
      (by simpa [Write.Within, unrelate] using ⟨htype, hr⟩) (by simp [Write.OnlyOn, unrelate])
      (fun heq => by simpa [String.toList_append] using congrArg String.toList heq)
    have hperform : Action.on Store.Memory.serve
        ((unrelate "type" "a" (t ++ ":" ++ s)).perform c.writer)
        (c.storeAfter [.merge "type" [(relatedEntity ("a" ++ ":" ++ t) s).listed]]) =
          (.ok (), m) := hrun
    simp only [hperform, c.on_get htype] at hsame
    rw [hsame, hbefore]
  have hstring : m.strings[c.relationshipKey "type" ("a" ++ ":" ++ t) s]? =
      some (Names.encode ∅) := by
    rw [hkey]
    exact hmerged.strings_unrelate c
  have hrelated := c.related_of_stored hafter ((hmerged.sets _ _).2 (.inl hindexed)) hstring
  rw [Names.decode?_encode] at hrelated
  have hnonempty : "related" ∈ (∅ : Names) := by
    have hids : (relatedEntity ("a" ++ ":" ++ t) s).relationships[s]? =
        some (.ofList ["related"]) := by simp [relatedEntity]
    rw [← Option.some.inj (hids.symm.trans hrelated)]
    simp
  simp at hnonempty

/-- The entities of a type are isolated from each other exactly if no relationship name is another
one behind a colon. -/
theorem isolates_iff_separable : c.Isolates names ↔ Separable names := by
  refine ⟨fun h r hr s hs t heq => ?_, c.isolates_of_separable⟩
  exact c.not_isolates hs (heq ▸ hr) h

/-- With arbitrary names they are not: `a:b` with `c` shares its key with `a` with `b:c`. -/
theorem not_isolates_univ : ¬(KeyValueCache.mk "fleetcache").Isolates Set.univ :=
  not_isolates _ (t := "b") (s := "c") trivial trivial

end KeyValueCache

end EntityCache
