import EntityCache.Proofs.Cache.Batching
import EntityCache.Proofs.Cache.Concurrent
import EntityCache.Proofs.Cache.Cycles
import EntityCache.Proofs.Cache.Effects
import EntityCache.Proofs.Cache.Partition

/-!
# What a collection leaves in a cache

A collection that succeeds has written its snapshot: of each type the evicted ids are gone, also
those that items are for; every other item has been laid over the entity of its id; and nothing
else has changed.  The order in which the types are written makes no difference.  A collection that
fails stops at a type: the types before it have been written, and those after it have not been
touched.  This holds of direct caches, where a collection never fails, and of caches on a store,
whatever requests fail, as long as no name of a relationship has a colon (`collect_effect`).
-/

namespace EntityCache

open Collection

/-! ## Direct caches -/

namespace DirectCache

variable {d : DirectCache} {type : String}

/-- A direct cache is seen through its map of entities, and through what it answers. -/
def outlook : Outlook DirectCache where
  keeps d type id e := (d.entities type)[id]? = e ∧
    ((reader.get type id).run d).1 = .ok (e.filter (·.isVisible))
  lists d type := ((reader.getIdentifiers type).run d).1

/-- An entity is read if it is there and visible. -/
theorem run_get (type id : String) (d : DirectCache) :
    ((reader.get type id).run d).1 = .ok ((d.entities type)[id]?.filter (·.isVisible)) := by
  show Except.ok (d.getAllByIds type [id]).getLast? = _
  rw [getAllByIds, distinct_eq_self (List.nodup_singleton id)]
  cases he : (d.entities type)[id]? with
  | none => simp [he]
  | some e => cases hvisible : e.isVisible <;> simp [he, hvisible, Option.filter]

/-- A direct cache keeps an entity exactly if it has this one under the id. -/
theorem keeps_iff {id : String} {e : Option Entity} :
    outlook.keeps d type id e ↔ (d.entities type)[id]? = e :=
  ⟨And.left, fun h => ⟨h, h ▸ run_get type id d⟩⟩

/-- What leaves the entities of a type alone is not seen there. -/
theorem untouched_of_entities {d' : DirectCache} (h : d'.entities type = d.entities type) :
    outlook.Untouched type d d' where
  lists := by
    show Except.ok (d'.entities type).keys = Except.ok (d.entities type).keys
    rw [h]
  keeps id e he := by
    rw [keeps_iff] at he ⊢
    rw [h, he]

/-- A direct cache writes as a collection expects of its outlook. -/
theorem writes : outlook.Writes (fun _ => True) (fun _ => True) writer where
  mergeAll type items _ := by
    refine ⟨fun _ _ => trivial, fun d _ other hother => ?_, fun d _ _ => ?_, fun _ _ _ _ => trivial⟩
    · refine untouched_of_entities ?_
      show (d.mergeAll type items).entities other = _
      rw [entities_mergeAll, if_neg hother.symm]
    · show outlook.Written type items [] d (d.mergeAll type items)
      -- an id is told from the items with it alone, so the three parts follow from one equation
      have hentities (id : String) : ((d.mergeAll type items).entities type)[id]? =
          items.foldl (upsertItem id) (d.entities type)[id]? := by
        rw [entities_mergeAll, if_pos rfl, getElem?_foldl_mergeItem]
      refine ⟨⟨_, _, rfl, rfl, fun id => ?_⟩, fun id hid => absurd hid List.not_mem_nil,
        fun item _ _ e he => ?_, fun id _ hitems e he => ?_⟩
      · rw [getIdentifiers, getIdentifiers, Std.ExtTreeMap.mem_keys, Std.ExtTreeMap.mem_keys,
          entities_mergeAll, if_pos rfl, mem_foldl_mergeItem]
        simp
      · rw [keeps_iff] at he ⊢
        rw [hentities, he]
      · rw [keeps_iff] at he ⊢
        rw [hentities, foldl_upsertItem_of_ne hitems, he]
  evictAll type ids := by
    refine ⟨fun _ _ => trivial, fun d _ other hother => ?_, fun d _ _ => ?_, fun _ _ _ _ => trivial⟩
    · refine untouched_of_entities (Std.ExtTreeMap.ext_getElem? fun id => ?_)
      show ((d.evictAll type ids).entities other)[id]? = _
      rw [getElem?_entities_evictAll, if_neg fun h => hother h.1.symm]
    · show outlook.Written type [] ids d (d.evictAll type ids)
      -- an id of the list is gone, any other is as it was
      have hentities (id : String) : ((d.evictAll type ids).entities type)[id]? =
          if id ∈ ids then none else (d.entities type)[id]? := by
        simp only [getElem?_entities_evictAll, true_and]
      refine ⟨⟨_, _, rfl, rfl, fun id => ?_⟩, fun id hid e _ => ?_,
        fun item hitem => absurd hitem List.not_mem_nil, fun id hid _ e he => ?_⟩
      · rw [getIdentifiers, getIdentifiers, Std.ExtTreeMap.mem_keys, Std.ExtTreeMap.mem_keys,
          ← Std.ExtTreeMap.isSome_getElem?_iff_mem, ← Std.ExtTreeMap.isSome_getElem?_iff_mem,
          hentities]
        by_cases hid : id ∈ ids <;> simp [hid]
      · rw [keeps_iff, hentities, if_pos hid]
      · rw [keeps_iff] at he ⊢
        rw [hentities, if_neg hid, he]

/-- Writing the types of a snapshot succeeds in every order. -/
theorem exists_collected (agent : String) (s : Snapshot) (d : DirectCache) {order : List String}
    (horder : order.Perm s.types) :
    ∃ d', (writeTypes writer agent s order).run d = (.ok (), d') ∧ outlook.Collected s d d' := by
  obtain ⟨f, -, hrun⟩ := Steady.writeTypes agent s order
  refine ⟨f d, hrun d, ?_⟩
  have hcollected := Outlook.collected_of_ok writes (fun _ _ _ _ => trivial) trivial horder
    (congrArg Prod.fst (hrun d))
  rwa [hrun] at hcollected

end DirectCache

/-! ## Caches on a store -/

namespace Store

/-- A request to an observed store fails, or is answered by the store behind; a fault may besides
leave out or add slots of a multi-key read. -/
theorem Observed.serve_cases (r : Request) (o : Observed) :
    (∃ e, (o.serve r).1 = .error e ∧ (o.serve r).2.backing = o.backing) ∨
      ((∀ keys, r ≠ .mget keys) → (o.serve r).1 = (o.backing.serve r).1) ∧
        (o.serve r).2.backing = (o.backing.serve r).2 := by
  -- only the answer to `mget` has slots to take away or to add
  have hdistort (effect : FaultEffect) (hr : ∀ keys, r ≠ .mget keys) (reply : r.Reply) :
      reply.map (effect.distort r) = reply := by
    cases reply with
    | error e => rfl
    | ok a =>
      cases r with
      | mget keys => exact absurd rfl (hr keys)
      | _ => cases effect <;> rfl
  rw [serve]
  generalize Fault.choose r.operation o.faults = choice
  -- no fault, a failure before the request, or an answer with the wrong slots
  rcases choice with ⟨_ | ⟨e | n | n⟩, faults⟩
  case none => exact .inr ⟨fun _ => rfl, rfl⟩
  case some.fail => exact .inl ⟨e, rfl, rfl⟩
  case some.short => exact .inr ⟨fun hr => hdistort _ hr _, rfl⟩
  case some.extra => exact .inr ⟨fun hr => hdistort _ hr _, rfl⟩

end Store

namespace KeyValueCache

open Store (Backing Calls Content Observed)

variable {c : KeyValueCache} {names : Set String} {o o' : Observed} {type : String}
  {running before after : List (Calls (Except DomainError Unit))}

/-- A write that runs on an observed store takes it to one that is reached, whatever fails. -/
theorem Reached.exists_run {p : Calls (Except DomainError Unit)}
    (hp : p.Asks fun r => ∀ keys, r ≠ .mget keys)
    (h : c.Reached names (p :: running) o.backing) :
    ∃ p', c.Reached names (p' :: running) (p.run Observed.serve o).2.backing := by
  induction p generalizing o with
  | done x => exact ⟨_, h⟩
  | ask r next ih =>
    have hrun : (Program.ask r next).run Observed.serve o =
        (next (o.serve r).1).run Observed.serve (o.serve r).2 := rfl
    rw [hrun]
    refine ih (o.serve r).1 (hp.2 _) ?_
    rcases Store.Observed.serve_cases r o with ⟨e, hreply, hbacking⟩ | ⟨hreply, hbacking⟩
    · rw [hreply, hbacking]
      exact @Reached.fail c names [] running r next o.backing e h
    · rw [hreply hp.1, hbacking]
      exact @Reached.serve c names [] running r next o.backing h

/-- So does a whole write. -/
theorem Reached.perform (h : c.Reached names running o.backing) (write : Write)
    (hwrite : write.Named names) :
    c.Reached names running (Action.on Observed.serve (write.perform c.writer) o).2.backing := by
  have hasks : (write.perform c.writer).Asks fun r => ∀ keys, r ≠ .mget keys := by
    cases write with
    | merge type items =>
      refine (merges_mergeAll type items).mono fun r hr keys heq => ?_
      subst heq
      cases hr
    | evict type ids =>
      refine (evicts_evictAll type ids).mono fun r hr keys heq => ?_
      subst heq
      cases hr
  obtain ⟨p', hp'⟩ := (Reached.begin write hwrite h).exists_run hasks
  exact @Reached.abandon c names [] running p' _ hp'

variable (c) in
/-- A cache on an observed store is seen through the strings and the members that the store behind
holds, and through what it would answer if nothing failed. -/
def outlook (names : Set String) : Outlook Observed where
  keeps o type id e := ValidType type ∧ c.Stores names o.backing type id e
  lists o type := (Action.on Backing.serve (c.reader.getIdentifiers type) o.backing).1

variable (c) in
/-- A write of an invalid type is refused before any request. -/
theorem on_perform_invalid {write : Write} (htype : ¬ValidType write.type) (o : Observed) :
    Action.on Observed.serve (write.perform c.writer) o =
      (.error (.invalidType write.type), o) := by
  cases write <;> exact Action.on_validate_bind _ htype _ o

variable (c) in
/-- A write leaves the keys of other types alone. -/
theorem sameAt_perform {write : Write} {other : String} (hother : ValidType other)
    (hne : other ≠ write.type) (hready : o.backing.Ready) (suffix : String) :
    Content.SameAt (c.typeKey other suffix)
      (Action.on Observed.serve (write.perform c.writer) o).2.backing.content
      o.backing.content := by
  by_cases htype : ValidType write.type
  · have hasks : (write.perform c.writer).Asks fun r => c.typeKey other suffix ∉ r.keys := by
      refine (asks_perform write).mono fun r hr hkey => ?_
      obtain ⟨suffix', heq⟩ := hr.keys hkey
      exact hne ((c.typeKey_inj hother htype).1 heq).1
    exact Observed.attends.sameAt_run hasks hready
  · rw [c.on_perform_invalid htype]
    exact .refl _ _

/-- The ids listed are the members of the type, so they stay while these do. -/
theorem Sane.getIdentifiers_eq (h : c.Sane names running o.backing)
    (h' : c.Sane names after o'.backing) (htype : ValidType type)
    (hmembers : o'.backing.content.sets (c.membersKey type) =
      o.backing.content.sets (c.membersKey type)) :
    (c.outlook names).lists o' type = (c.outlook names).lists o type := by
  show (Action.on Backing.serve (c.reader.getIdentifiers type) o'.backing).1 =
    (Action.on Backing.serve (c.reader.getIdentifiers type) o.backing).1
  rw [h.getIdentifiers htype, h'.getIdentifiers htype, hmembers]

/-- A write is seen on no other type. -/
theorem untouched_perform (hnames : Separable names) (h : c.Reached names running o.backing)
    {write : Write} (hwrite : write.Named names) {other : String} (hne : other ≠ write.type) :
    (c.outlook names).Untouched other o
      (Action.on Observed.serve (write.perform c.writer) o).2 := by
  have hsane := h.sane hnames
  have hsane' := (h.perform write hwrite).sane hnames
  obtain ⟨m, htwin⟩ := hsane.twin
  have hsame (hother : ValidType other) (suffix : String) :=
    c.sameAt_perform hother hne htwin.ready suffix
  constructor
  -- an invalid type is refused before the store is asked, so its answer never changes
  · by_cases hother : ValidType other
    · refine hsane.getIdentifiers_eq hsane' hother ?_
      rw [membersKey_eq]
      exact (hsame hother _).set
    · have hon (b : Backing) : Action.on Backing.serve (c.reader.getIdentifiers other) b =
          (.error (.invalidType other), b) := Action.on_validate_bind _ hother _ b
      exact (congrArg Prod.fst (hon _)).trans (congrArg Prod.fst (hon o.backing)).symm
  -- the texts of the entity are at keys of its own type, which the write leaves
  · rintro id e ⟨hother, he⟩
    refine ⟨hother, hsane'.stores hother ⟨?_, fun name hname => ?_⟩ he.keyed he.named⟩
    · rw [attributesKey_eq, (hsame hother _).string, ← attributesKey_eq]
      exact he.parts.attributes
    · rw [relationshipKey_eq, (hsame hother _).string, ← relationshipKey_eq]
      exact he.parts.relationships name hname

/-- A write that has succeeded is of a valid type, and has carried out its requests. -/
theorem Reached.carriedOut_of_ok (hnames : Separable names) (h : c.Reached names running o.backing)
    (write : Write) (hok : (Action.on Observed.serve (write.perform c.writer) o).1 = .ok ()) :
    ValidType write.type ∧
      (Action.on Observed.serve (write.perform c.writer) o).2.backing.content =
        o.backing.content.carryOut (write.requests c o.backing.content) := by
  have htype : ValidType write.type := by
    by_contra htype
    rw [c.on_perform_invalid htype] at hok
    cases hok
  obtain ⟨m, htwin⟩ := (h.sane hnames).twin
  exact ⟨htype, c.perform_ok htwin.ready htype (Prod.ext hok rfl)⟩

/-- A merge that has succeeded has laid its items over the entities. -/
theorem written_mergeAll (hnames : Separable names) (h : c.Reached names running o.backing)
    {items : List Item} (hitems : ∀ item ∈ items, ∀ name ∈ item.relationships, name ∈ names)
    (hok : (Action.on Observed.serve (c.mergeAll type items) o).1 = .ok ()) :
    (c.outlook names).Written type items [] o
      (Action.on Observed.serve (c.mergeAll type items) o).2 := by
  obtain ⟨htype : ValidType type, hcontent⟩ := h.carriedOut_of_ok hnames (.merge type items) hok
  have hreached := h.perform (.merge type items) hitems
  have hwithin : ∀ b ∈ [(⟨type, items⟩ : Batch)], b.write.Within names :=
    List.forall_mem_singleton.2 ⟨htype, hitems⟩
  -- one batch alone loses nothing, by the theorem on batches in any turns
  have hkept := nothingLost_of_content hnames h hreached hwithin (List.pairwise_singleton _ _)
    (by rw [List.map_singleton, List.flatten_singleton]; exact hcontent)
  refine ⟨⟨_, _, (h.sane hnames).getIdentifiers htype, (hreached.sane hnames).getIdentifiers htype,
    fun id => ?_⟩, fun id hid => absurd hid List.not_mem_nil, fun item hitem _ e he => ?_,
    fun id _ hother e he => ?_⟩
  · replace hcontent : (Action.on Observed.serve (c.mergeAll type items) o).2.backing.content =
      o.backing.content.carryOut ((Write.merge type items).requests c o.backing.content) := hcontent
    show id ∈ ((Action.on Observed.serve (c.mergeAll type items) o).2.backing.content.sets
      (c.membersKey type)).toList ↔ _
    rw [Std.ExtTreeSet.mem_toList, Std.ExtTreeSet.mem_toList, hcontent, c.mem_sets_merge]
    simp [(c.indexKey_ne_membersKey htype htype).symm]
  · exact ⟨htype, hkept.upserted _ (List.mem_singleton_self _) item hitem e he.2⟩
  · refine ⟨htype, hkept.others type htype id (fun b hb _ item hitem => ?_) e he.2⟩
    obtain rfl := List.mem_singleton.1 hb
    exact hother item hitem

/-- An eviction leaves nothing of its ids, and all of the others. -/
theorem Evicted.partsOf (hnames : Separable names) (htype : ValidType type) {m m' : Store.Memory}
    (hkept : c.Kept names m.content) {ids : List String} (hevicted : c.Evicted type ids m m')
    {id : String} {e : Option Entity} (h : c.PartsOf names type id (m.strings[·]?) e) :
    c.PartsOf names type id (m'.strings[·]?) (if id ∈ ids then none else e) := by
  have hindex : ∀ name ∈ m.setOf (c.indexKey type), name ∈ names := hkept.named htype
  constructor
  · show HoldsAttributes m'.strings[_]? _
    rw [hevicted.strings, if_congr (c.attributesKey_mem_evictedKeys htype htype) rfl rfl]
    by_cases hid : id ∈ ids
    · simp [hid, HoldsAttributes]
    · simpa [hid] using h.attributes
  · intro name hname
    show m'.strings[_]? = _
    rw [hevicted.strings,
      if_congr (c.relationshipKey_mem_evictedKeys hnames htype hindex hname) rfl rfl]
    by_cases hid : id ∈ ids
    · by_cases hindexed : name ∈ m.setOf (c.indexKey type)
      · simp [hid, hindexed, relationshipText]
      · -- the key is not removed, but a string that is there has its name in the index
        rw [if_neg (by simp [hindexed]), if_pos hid]
        refine Option.eq_none_iff_forall_not_mem.2 fun text htext => hindexed ?_
        exact (hkept.relationships htype name hname htext).1
    · simpa [hid] using h.relationships name hname

/-- An eviction that has succeeded leaves of a store what it leaves of a twin in memory. -/
theorem Reached.exists_evicted (hnames : Separable names) (h : c.Reached names running o.backing)
    {m : Store.Memory} (htwin : o.backing.Twin m) {ids : List String}
    (hok : (Action.on Observed.serve (c.evictAll type ids) o).1 = .ok ()) :
    ∃ m', (Action.on Observed.serve (c.evictAll type ids) o).2.backing.content = m'.content ∧
      c.Evicted type ids m m' := by
  obtain ⟨htype : ValidType type, hcontent⟩ := h.carriedOut_of_ok hnames (.evict type ids) hok
  obtain ⟨m', hrun, hevicted⟩ := c.on_evictAll htype ids m
  refine ⟨m', ?_, hevicted⟩
  have hleft := c.content_left (w := .evict type ids) htype m
  have hon : c.left (.evict type ids) m = m' := congrArg Prod.snd hrun
  rw [hon] at hleft
  rw [hleft, ← htwin.content_eq]
  exact hcontent

/-- After an eviction that has succeeded the store keeps nothing under its ids, and what it has kept
under the others. -/
theorem keeps_evictAll (hnames : Separable names) (h : c.Reached names running o.backing)
    {ids : List String} (hok : (Action.on Observed.serve (c.evictAll type ids) o).1 = .ok ())
    {id : String} {e : Option Entity} (he : (c.outlook names).keeps o type id e) :
    (c.outlook names).keeps (Action.on Observed.serve (c.evictAll type ids) o).2 type id
      (if id ∈ ids then none else e) := by
  obtain ⟨htype, hstores⟩ := he
  have hsane' := (h.perform (.evict type ids) trivial).sane hnames
  obtain ⟨m, htwin⟩ := (h.sane hnames).twin
  obtain ⟨m', hmemory, hevicted⟩ := h.exists_evicted hnames htwin hok
  have hkept := (h.sane hnames).kept
  have hparts := hstores.parts
  rw [htwin.content_eq] at hkept hparts
  -- what is kept afterwards is nothing, or the entity that was there
  have hthere : ∀ x ∈ (if id ∈ ids then none else e), x ∈ e := by
    intro x hx
    split at hx
    case isTrue => cases hx
    case isFalse => exact hx
  refine ⟨htype, hsane'.stores htype ?_ ?_ ?_⟩
  · show c.PartsOf names type id
      (Action.on Observed.serve (c.evictAll type ids) o).2.backing.content.strings _
    rw [hmemory]
    exact hevicted.partsOf hnames htype hkept hparts
  · exact fun x hx => hstores.keyed x (hthere x hx)
  · exact fun x hx => hstores.named x (hthere x hx)

/-- An eviction that has succeeded has taken its ids away. -/
theorem written_evictAll (hnames : Separable names) (h : c.Reached names running o.backing)
    {ids : List String} (hok : (Action.on Observed.serve (c.evictAll type ids) o).1 = .ok ()) :
    (c.outlook names).Written type [] ids o
      (Action.on Observed.serve (c.evictAll type ids) o).2 := by
  obtain ⟨htype : ValidType type, -⟩ := h.carriedOut_of_ok hnames (.evict type ids) hok
  have hsane := h.sane hnames
  have hsane' := (h.perform (.evict type ids) trivial).sane hnames
  obtain ⟨m, htwin⟩ := hsane.twin
  obtain ⟨m', hmemory, hevicted⟩ := h.exists_evicted hnames htwin hok
  refine ⟨⟨_, _, hsane.getIdentifiers htype, hsane'.getIdentifiers htype, fun id => ?_⟩,
    fun id hid e he => ?_, fun item hitem => absurd hitem List.not_mem_nil,
    fun id hid _ e he => ?_⟩
  · show id ∈ ((Action.on Observed.serve (c.evictAll type ids) o).2.backing.content.sets
      (c.membersKey type)).toList ↔ _
    rw [hmemory, htwin.content_eq, Std.ExtTreeSet.mem_toList, Std.ExtTreeSet.mem_toList]
    show id ∈ m'.setOf _ ↔ _ ∧ (id ∈ m.setOf _ ∨ _)
    rw [hevicted.mem_members c htype htype]
    simp [and_comm]
  -- the two cases of what is kept, for an id of the list and for any other
  · have hnone := keeps_evictAll hnames h hok he
    rwa [if_pos hid] at hnone
  · have hsame := keeps_evictAll hnames h hok he
    rwa [if_neg hid] at hsame

variable (c) in
/-- The writer of a cache on an observed store. -/
def observedWriter : Writer (StateM Observed) :=
  c.writer.lift fun p o => p.run Observed.serve o

/-- On a store that is reached, the writes of items with names of the set have their effects. -/
theorem writes (hnames : Separable names) :
    (c.outlook names).Writes (fun o => ∃ running, c.Reached names running o.backing)
      (fun item => ∀ name ∈ item.relationships, name ∈ names) c.observedWriter where
  mergeAll type items hitems := by
    have hwrite : (Write.merge type items).Named names := hitems
    refine ⟨?_, ?_, ?_, fun _ _ _ _ => trivial⟩
    · rintro o ⟨running, h⟩
      exact ⟨running, h.perform _ hwrite⟩
    · rintro o ⟨running, h⟩ other hne
      exact untouched_perform hnames h hwrite hne
    · rintro o ⟨running, h⟩ hok
      exact written_mergeAll hnames h hitems hok
  evictAll type ids := by
    have hwrite : (Write.evict type ids).Named names := trivial
    refine ⟨?_, ?_, ?_, fun _ _ _ _ => trivial⟩
    · rintro o ⟨running, h⟩
      exact ⟨running, h.perform _ hwrite⟩
    · rintro o ⟨running, h⟩ other hne
      exact untouched_perform hnames h hwrite hne
    · rintro o ⟨running, h⟩ hok
      exact written_evictAll hnames h hok

section Run

variable {s : Snapshot} {agent : String} (hnames : Separable names)
  (h : c.Reached names running o.backing)
  (hitems : ∀ type ∈ s.types, ∀ item ∈ s.items.getD type [], ∀ name ∈ item.relationships,
    name ∈ names)

include hnames h hitems

/-- Writes that succeed, in any order of the types, leave what the snapshot says. -/
theorem collected_of_run {order : List String} (horder : order.Perm s.types)
    (hrun : (writeTypes c.observedWriter agent s order).run o = (.ok (), o')) :
    (c.outlook names).Collected s o o' := by
  have hcollected := Outlook.collected_of_ok (c.writes hnames) hitems ⟨running, h⟩ horder
    (congrArg Prod.fst hrun)
  rwa [hrun] at hcollected

/-- Writes that fail stop at a type, with those before it written and those after it untouched. -/
theorem stopped_of_run {chain : ErrorChain}
    (hrun : (writeTypes c.observedWriter agent s s.types).run o = (.error chain, o')) :
    ∃ failed, (c.outlook names).Stopped agent s chain failed o o' := by
  have hstopped := Outlook.stopped_of_error (c.writes hnames) hitems ⟨running, h⟩
    (congrArg Prod.fst hrun)
  rwa [hrun] at hstopped

end Run

/-- A store that is reached lists the ids of every valid type, and keeps an entity or none under
each id. -/
theorem Reached.outlook_total (hnames : Separable names) (h : c.Reached names running o.backing)
    (htype : ValidType type) :
    (∃ ids, (c.outlook names).lists o type = .ok ids) ∧
      ∀ id, ∃ e, (c.outlook names).keeps o type id e := by
  refine ⟨⟨_, (h.sane hnames).getIdentifiers htype⟩, fun id => ?_⟩
  obtain ⟨e, he⟩ := h.exists_stores hnames htype id
  exact ⟨e, htype, he⟩

end KeyValueCache

/-! ## Both -/

/-- In a direct cache a collection succeeds.  If it succeeds, there or in a cache on a store whose
names of relationships have no colons, its snapshot has been written, and would have been in any
other order of the types that succeeds.  If it fails, it has stopped at a type. -/
theorem collect_effect (agent : String) (s : Snapshot) :
    (∀ d : DirectCache,
      (∃ d', (collect DirectCache.writer agent (.loaded (.ok s))).run d = (.ok (), d') ∧
        DirectCache.outlook.Collected s d d') ∧
      ∀ order : List String, order.Perm s.types →
        ∃ d', (writeTypes DirectCache.writer agent s order).run d = (.ok (), d') ∧
          DirectCache.outlook.Collected s d d') ∧
    ∀ (c : KeyValueCache) (running : List (Store.Calls (Except DomainError Unit)))
      (o : Store.Observed), c.Reached {name | ':' ∉ name.toList} running o.backing →
      (∀ type ∈ s.types, ∀ item ∈ s.items.getD type [], ∀ name ∈ item.relationships,
        ':' ∉ name.toList) →
      let V := c.outlook {name | ':' ∉ name.toList}
      (∀ type, KeyValueCache.ValidType type →
        (∃ ids, V.lists o type = .ok ids) ∧ ∀ id, ∃ e, V.keeps o type id e) ∧
      (∀ o', (collect c.observedWriter agent (.loaded (.ok s))).run o = (.ok (), o') →
        V.Collected s o o') ∧
      (∀ order : List String, order.Perm s.types → ∀ o',
        (writeTypes c.observedWriter agent s order).run o = (.ok (), o') → V.Collected s o o') ∧
      ∀ chain o', (collect c.observedWriter agent (.loaded (.ok s))).run o = (.error chain, o') →
        ∃ failed, V.Stopped agent s chain failed o o' := by
  constructor
  · intro d
    exact ⟨DirectCache.exists_collected agent s d (.refl _),
      fun order horder => DirectCache.exists_collected agent s d horder⟩
  · intro c running o hreached hitems V
    have hnames := KeyValueCache.separable_colonFree
    -- a collection writes its types in byte order, so it is a case of the writes in any order
    refine ⟨fun type htype => hreached.outlook_total hnames htype, fun o' hrun => ?_,
      fun order horder o' hrun => ?_, fun chain o' hrun => ?_⟩
    · exact KeyValueCache.collected_of_run hnames hreached hitems (.refl _) hrun
    · exact KeyValueCache.collected_of_run hnames hreached hitems horder hrun
    · exact KeyValueCache.stopped_of_run hnames hreached hitems hrun

/-- Two hosts of which one is evicted at once, their rack, and a switch that is gone. -/
def rackSnapshot : Snapshot :=
  ({} : Snapshot)
    |>.withItems "host" [(({ id := "a" } : Entity).withRelationship "rack" ["r"]).listed,
      (({ id := "b" } : Entity).withRelationship "rack" ["r"]).listed]
    |>.withEvictions "host" ["b"]
    |>.withItems "rack" [(({ id := "r" } : Entity).withRelationship "hosts" ["a"]).listed]
    |>.withEvictions "switch" ["s"]

/-- An empty store that fails one request after seven. -/
def eighthFails : Store.Observed :=
  { backing := .memory {}, faults := [⟨none, .fail (.query "disk full"), 7, some 1⟩] }


/-- What is reported if the eighth request fails. -/
def rackFailure : ErrorChain :=
  ["Failed to merge rack for agent scanner", "Store unavailable: Query error: disk full"]

/-- On an empty store the snapshot is written, in either order of its types; and if the eighth
request fails, the collection stops while it merges the rack. -/
theorem collect_effect_rackSnapshot :
    ∃ whole shuffled part failed,
      (collect (KeyValueCache.mk "fleetcache").observedWriter "scanner"
        (.loaded (.ok rackSnapshot))).run { backing := .memory {} } = (.ok (), whole) ∧
      ((KeyValueCache.mk "fleetcache").outlook {name | ':' ∉ name.toList}).Collected
        rackSnapshot { backing := .memory {} } whole ∧
      (writeTypes (KeyValueCache.mk "fleetcache").observedWriter "scanner" rackSnapshot
        ["switch", "host", "rack"]).run { backing := .memory {} } = (.ok (), shuffled) ∧
      ((KeyValueCache.mk "fleetcache").outlook {name | ':' ∉ name.toList}).Collected
        rackSnapshot { backing := .memory {} } shuffled ∧
      (collect (KeyValueCache.mk "fleetcache").observedWriter "scanner"
        (.loaded (.ok rackSnapshot))).run eighthFails = (.error rackFailure, part) ∧
      ((KeyValueCache.mk "fleetcache").outlook {name | ':' ∉ name.toList}).Stopped "scanner"
        rackSnapshot rackFailure failed eighthFails part := by
  have hfresh : (KeyValueCache.mk "fleetcache").Reached {name | ':' ∉ name.toList} []
      (.memory {}) := .fresh (.inl rfl)
  have hitems : ∀ type ∈ rackSnapshot.types, ∀ item ∈ rackSnapshot.items.getD type [],
      ∀ name ∈ item.relationships, ':' ∉ name.toList := by
    have htypes : rackSnapshot.types = ["host", "rack", "switch"] := by decide +kernel
    rw [htypes]
    simp [rackSnapshot, Snapshot.withItems, Snapshot.withEvictions, Entity.withRelationship,
      Std.ExtTreeMap.getD_insert]
  have hwhole : ((collect (KeyValueCache.mk "fleetcache").observedWriter "scanner"
      (.loaded (.ok rackSnapshot))).run { backing := .memory {} }).1 = .ok () := by
    decide +kernel
  have hshuffled : ((writeTypes (KeyValueCache.mk "fleetcache").observedWriter "scanner"
      rackSnapshot ["switch", "host", "rack"]).run { backing := .memory {} }).1 = .ok () := by
    decide +kernel
  have hpart : ((collect (KeyValueCache.mk "fleetcache").observedWriter "scanner"
      (.loaded (.ok rackSnapshot))).run eighthFails).1 = .error rackFailure := by
    decide +kernel
  rw [Prod.fst_eq_iff] at hwhole hshuffled hpart
  -- the store without faults for success, and the one with them for the failure
  obtain ⟨-, hcollect, horders, -⟩ := (collect_effect "scanner" rackSnapshot).2 ⟨"fleetcache"⟩ []
    { backing := .memory {} } hfresh hitems
  obtain ⟨-, -, -, hstopped⟩ := (collect_effect "scanner" rackSnapshot).2 ⟨"fleetcache"⟩ []
    eighthFails hfresh hitems
  obtain ⟨failed, hfailed⟩ := hstopped _ _ hpart
  exact ⟨_, _, _, failed, hwhole, hcollect _ hwhole, hshuffled,
    horders _ (by decide +kernel) _ hshuffled, hpart, hfailed⟩

end EntityCache
