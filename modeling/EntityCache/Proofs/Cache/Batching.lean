import EntityCache.Proofs.Cache.Direct
import EntityCache.Proofs.Cache.Interruption
import EntityCache.Proofs.Store.Repetition

/-!
# Writes in parts

A list of items is merged whole or in parts, one after another, and a list of ids is evicted whole
or in parts, and no difference is left in the cache (`batching_transparent`).  Two facts carry this.
Writing nothing does nothing, and writing two lists one after another leaves what writing both in
one leaves.  The rest is one induction over the parts (`Congruence.forM`).

For a cache on a store the second fact is first one of contents.  A merge of two lists adds the
names and the ids of both and puts the entries of both in order; an eviction removes the keys of
both, which are the same keys in one go and in two, since no eviction changes the index that it
reads.  From the contents it is carried over to what the stores are made of: the maps in memory,
where a set may be there without a member, and the rows of the tables.  A database that has been
closed fails both ways and keeps what it has.
-/

namespace EntityCache

/-! ## Lists in parts -/

section Parts

variable {α : Type} {m : Type → Type} [Monad m]
  {same : ExceptT DomainError m Unit → ExceptT DomainError m Unit → Prop}

/-- A relation of operations that is kept up by doing something else first. -/
structure Congruence
    (same : ExceptT DomainError m Unit → ExceptT DomainError m Unit → Prop) : Prop where
  refl : ∀ a, same a a
  trans : ∀ {a b c}, same a b → same b c → same a c
  bind : ∀ (a : ExceptT DomainError m Unit) {b c}, same b c →
    same (a >>= fun _ => b) (a >>= fun _ => c)

/-- An operation that may be carried out on two lists in one may be carried out in any parts. -/
theorem Congruence.forM (h : Congruence same) {f : List α → ExceptT DomainError m Unit}
    (nil : same (pure ()) (f []))
    (append : ∀ xs ys, same (f xs >>= fun _ => f ys) (f (xs ++ ys))) (parts : List (List α)) :
    same (parts.forM f) (f parts.flatten) := by
  induction parts with
  | nil => exact nil
  | cons part rest ih => exact h.trans (h.bind (f part) ih) (append part rest.flatten)

/-- Taking elements one at a time is taking parts of one element. -/
theorem forM_singletons (f : List α → ExceptT DomainError m Unit) (xs : List α) :
    (xs.map fun x => [x]).forM f = xs.forM fun x => f [x] := by
  induction xs with
  | nil => rfl
  | cons x xs ih => exact congrArg (fun a => f [x] >>= fun _ => a) ih

/-- What a writer does with the parts of a list is the same as what it does with the whole list, in
particular with its elements one at a time. -/
structure Writer.Transparent (w : Writer m) (type : String)
    (same : ExceptT DomainError m Unit → ExceptT DomainError m Unit → Prop) : Prop where
  mergeParts : ∀ parts : List (List Item),
    same (parts.forM (w.mergeAll type)) (w.mergeAll type parts.flatten)
  mergeEach : ∀ items : List Item, same (items.forM (w.merge type)) (w.mergeAll type items)
  evictParts : ∀ parts : List (List String),
    same (parts.forM (w.evictAll type)) (w.evictAll type parts.flatten)
  evictEach : ∀ ids : List String, same (ids.forM (w.evict type)) (w.evictAll type ids)

/-- Two lists are all that has to be looked at. -/
theorem Writer.Transparent.of_append {w : Writer m} {type : String} (h : Congruence same)
    (mergeNil : same (pure ()) (w.mergeAll type []))
    (mergeAppend : ∀ xs ys,
      same (w.mergeAll type xs >>= fun _ => w.mergeAll type ys) (w.mergeAll type (xs ++ ys)))
    (evictNil : same (pure ()) (w.evictAll type []))
    (evictAppend : ∀ xs ys,
      same (w.evictAll type xs >>= fun _ => w.evictAll type ys) (w.evictAll type (xs ++ ys))) :
    w.Transparent type same where
  mergeParts := h.forM mergeNil mergeAppend
  mergeEach items := by
    have each := h.forM mergeNil mergeAppend (items.map fun item => [item])
    rwa [forM_singletons, ← List.flatMap_def, List.flatMap_singleton'] at each
  evictParts := h.forM evictNil evictAppend
  evictEach ids := by
    have each := h.forM evictNil evictAppend (ids.map fun id => [id])
    rwa [forM_singletons, ← List.flatMap_def, List.flatMap_singleton'] at each

end Parts

/-! ## Direct caches -/

namespace DirectCache

/-- Equality is enough to compare operations that have no failures of a store to hide. -/
theorem congruence_eq {m : Type → Type} [Monad m] :
    Congruence fun a b : ExceptT DomainError m Unit => a = b where
  refl _ := rfl
  trans := Eq.trans
  bind _ _ _ h := by rw [h]

variable (d : DirectCache) (type : String)

/-- Two lists of items merged one after the other leave what they leave merged as one. -/
theorem mergeAll_append (xs ys : List Item) :
    d.mergeAll type (xs ++ ys) = (d.mergeAll type xs).mergeAll type ys := by
  -- an empty list makes no type known, so it is told apart from the start
  by_cases hxs : xs = []
  · subst hxs
    rfl
  by_cases hys : ys = []
  · subst hys
    rw [List.append_nil]
    rfl
  have hentities : (d.mergeAll type xs).entities type = xs.foldl mergeItem (d.entities type) := by
    rw [entities_mergeAll, if_pos rfl]
  rw [mergeAll, mergeAll, hentities]
  simp only [mergeAll, List.isEmpty_iff, hxs, hys, List.append_eq_nil_iff, and_self, if_false,
    List.foldl_append]
  -- the type is inserted twice on one side and once on the other
  congr 1
  apply Std.ExtTreeMap.ext_getElem?
  simp only [Std.ExtTreeMap.getElem?_insert]
  intro k
  split <;> rfl

theorem evictAll_nil : d.evictAll type [] = d := by
  unfold evictAll
  split
  case h_1 => rfl
  case h_2 stored hstored =>
    obtain ⟨types⟩ := d
    congr 1
    apply Std.ExtTreeMap.ext_getElem?
    intro k
    simp only [List.foldl_nil, Std.ExtTreeMap.getElem?_insert, compare_eq_iff_eq]
    split
    case isTrue h => rw [← h, ← hstored]
    case isFalse => rfl

/-- Two lists of ids evicted one after the other leave what they leave evicted as one. -/
theorem evictAll_append (xs ys : List String) :
    d.evictAll type (xs ++ ys) = (d.evictAll type xs).evictAll type ys := by
  cases hstored : d.types[type]? with
  | none => simp [evictAll, hstored]
  | some stored =>
    simp only [evictAll, hstored, Std.ExtTreeMap.getElem?_insert_self, List.foldl_append]
    congr 1
    apply Std.ExtTreeMap.ext_getElem?
    simp only [Std.ExtTreeMap.getElem?_insert]
    intro k
    split <;> rfl

/-- A direct cache is left the same, and the operations answer the same. -/
theorem transparent : writer.Transparent type (· = ·) := by
  refine .of_append congruence_eq rfl ?_ ?_ ?_
  · intro xs ys
    funext d
    show (Except.ok (), (d.mergeAll type xs).mergeAll type ys) = _
    rw [← mergeAll_append]
    rfl
  · funext d
    show (Except.ok (), d) = (Except.ok (), d.evictAll type [])
    rw [evictAll_nil]
  · intro xs ys
    funext d
    show (Except.ok (), (d.evictAll type xs).evictAll type ys) = _
    rw [← evictAll_append]
    rfl

end DirectCache

/-! ## Stores that are the same -/

namespace Store

/-- Sound tables that hold the same have the same rows, whatever their order. -/
theorem Tables.perm_of_content {t t' : Tables} (h : t.Sound) (h' : t'.Sound)
    (hcontent : t.content = t'.content) :
    t.strings.Perm t'.strings ∧ t.sets.Perm t'.sets := by
  constructor
  · apply (List.perm_ext_iff_of_nodup (.of_map _ h.strings) (.of_map _ h'.strings)).2
    rintro ⟨k, v⟩
    have hvalue : valueOf t.strings k = valueOf t'.strings k :=
      congrFun (congrArg Content.strings hcontent) k
    rw [← valueOf_eq_some h.strings, ← valueOf_eq_some h'.strings, hvalue]
  · apply (List.perm_ext_iff_of_nodup h.sets h'.sets).2
    rintro ⟨k, x⟩
    have hmembers : membersOf t.sets k = membersOf t'.sets k :=
      congrFun (congrArg Content.sets hcontent) k
    rw [← mem_membersOf, ← mem_membersOf, hmembers]

/-- The same store in memory, or two databases that are both open or both closed and have the same
rows in each table. -/
inductive Backing.Same : Backing → Backing → Prop
  | memory (m : Memory) : Same (.memory m) (.memory m)
  | database {d d' : Database} (isOpen : d.isOpen = d'.isOpen)
    (strings : d.tables.strings.Perm d'.tables.strings)
    (sets : d.tables.sets.Perm d'.tables.sets) : Same (.database d) (.database d')

theorem Backing.Same.refl (b : Backing) : b.Same b := by
  cases b with
  | memory m => exact .memory m
  | database d => exact .database rfl (.refl _) (.refl _)

/-- Stores that are the same as a third are the same. -/
theorem Backing.Same.trans {b b' b'' : Backing} (h : b.Same b') (h' : b'.Same b'') :
    b.Same b'' := by
  cases h with
  | memory m => exact h'
  | database isOpen strings sets =>
    cases h' with
    | database isOpen' strings' sets' =>
      exact .database (isOpen.trans isOpen') (strings.trans strings') (sets.trans sets')

end Store

/-! ## Caches on a store -/

namespace KeyValueCache

open Store (Backing Content Memory Database)

/-- Whatever a store holds, two operations answer the same and leave the same store. -/
def SameOn (a a' : Action Unit) : Prop :=
  ∀ b : Backing, b.Sound → (Action.on Backing.serve a b).1 = (Action.on Backing.serve a' b).1 ∧
    (Action.on Backing.serve a b).2.Same (Action.on Backing.serve a' b).2

/-- Operations that are the same on every sound store stay so before the same operation: a sound
store stays sound. -/
theorem congruence_sameOn : Congruence SameOn where
  refl _ b _ := ⟨rfl, .refl _⟩
  trans h h' b hb := ⟨(h b hb).1.trans (h' b hb).1, (h b hb).2.trans (h' b hb).2⟩
  bind a c c' h b hb := by
    have hsound := Backing.attends_sound.ready_run a.run hb
    rw [Action.on_bind, Action.on_bind]
    rw [← Action.on] at hsound
    generalize Action.on Backing.serve a b = ran at hsound ⊢
    obtain ⟨result, b'⟩ := ran
    cases result with
    | ok => exact h b' hsound
    | error => exact ⟨rfl, .refl b'⟩

variable (c : KeyValueCache) {type : String}

/-! ### Contents -/

section Contents

variable {held : Content} {k x : String}

/-- What a merge makes of the sets of a store. -/
theorem mem_sets_merge (items : List Item) :
    x ∈ (held.carryOut ((Write.merge type items).requests c held)).sets k ↔ x ∈ held.sets k ∨
      (k = c.indexKey type ∧ x ∈ relationshipNames items) ∨
      (k = c.membersKey type ∧ ∃ item ∈ items, item.isBlank = false ∧ item.id = x) := by
  have hadd (held : Content) (key : String) (members : List String) :
      x ∈ (held.answer (.sadd key members)).2.sets k ↔
        x ∈ held.sets k ∨ (k = key ∧ x ∈ members) := by
    show x ∈ Function.update held.sets key _ k ↔ _
    by_cases hk : k = key
    · subst hk
      simp
    · simp [hk]
  simp only [Write.requests, Content.carryOut_cons, Content.carryOut_nil, hadd]
  show (x ∈ (held.answer (.sadd _ _)).2.sets k ∨ _) ↔ _
  rw [hadd, or_assoc]
  simp only [List.mem_map, List.mem_filter, Bool.not_eq_true', and_assoc]

/-- A merge of two lists leaves what the merges of both leave. -/
theorem carryOut_merge_append (xs ys : List Item) (held : Content) :
    let first := held.carryOut ((Write.merge type xs).requests c held)
    held.carryOut ((Write.merge type (xs ++ ys)).requests c held) =
      first.carryOut ((Write.merge type ys).requests c first) := by
  apply Content.ext
  · show (held.put ((xs ++ ys).flatMap (c.entries type))).strings =
      ((held.put (xs.flatMap (c.entries type))).put (ys.flatMap (c.entries type))).strings
    rw [List.flatMap_append, Content.put, List.foldl_append]
    rfl
  · funext k
    apply Std.ExtTreeSet.ext_mem
    intro x
    simp only [mem_sets_merge, mem_relationshipNames, List.mem_append, or_and_right, exists_or,
      and_or_left, or_assoc, or_left_comm]

/-- The keys that an eviction removes from a store of this content. -/
def removedKeys (held : Content) (type : String) (ids : List String) : List String :=
  (distinct ids).flatMap fun id =>
    (held.sets (c.indexKey type)).toList.map (c.relationshipKey type id) ++
      [c.attributesKey type id]

/-- The keys of two lists of ids are those of either. -/
theorem mem_removedKeys_append {xs ys : List String} :
    k ∈ c.removedKeys held type (xs ++ ys) ↔
      k ∈ c.removedKeys held type xs ∨ k ∈ c.removedKeys held type ys := by
  simp only [removedKeys, List.mem_flatMap, mem_distinct, List.mem_append, or_and_right, exists_or]

/-- What an eviction makes of the sets of a store. -/
theorem mem_sets_evict (ids : List String) :
    x ∈ (held.carryOut ((Write.evict type ids).requests c held)).sets k ↔
      (k ∉ c.removedKeys held type ids ∧ x ∈ held.sets k) ∧ ¬(k = c.membersKey type ∧ x ∈ ids) := by
  have hremove : x ∈ (held.remove (c.removedKeys held type ids)).2.sets k ↔
      k ∉ c.removedKeys held type ids ∧ x ∈ held.sets k := by
    show x ∈ (if _ then _ else _) ↔ _
    split
    case isTrue h => simp [h]
    case isFalse h => simp [h]
  rw [← hremove]
  show x ∈ Function.update (held.remove (c.removedKeys held type ids)).2.sets _ _ k ↔ _
  by_cases hk : k = c.membersKey type
  · subst hk
    rw [Function.update_self]
    show x ∈ (held.remove (c.removedKeys held type ids)).2.sets _ \ .ofList (distinct ids) ↔ _
    simp [mem_distinct]
  · simp [hk]

/-- An eviction leaves the index, so the next one removes the keys that it would have removed
before. -/
theorem removedKeys_evict (htype : ValidType type) (xs ys : List String) (held : Content) :
    c.removedKeys (held.carryOut ((Write.evict type xs).requests c held)) type ys =
      c.removedKeys held type ys := by
  have hindex := c.index_evict_take htype xs held ((Write.evict type xs).requests c held).length
  rw [List.take_length] at hindex
  rw [removedKeys, hindex, removedKeys]

/-- An eviction of two lists leaves what the evictions of both leave. -/
theorem carryOut_evict_append (htype : ValidType type) (xs ys : List String) (held : Content) :
    let first := held.carryOut ((Write.evict type xs).requests c held)
    held.carryOut ((Write.evict type (xs ++ ys)).requests c held) =
      first.carryOut ((Write.evict type ys).requests c first) := by
  intro first
  -- the first eviction leaves the index, so the second removes the keys it would have removed
  -- before
  have hkeys : c.removedKeys first type ys = c.removedKeys held type ys :=
    c.removedKeys_evict htype xs ys held
  apply Content.ext
  · funext k
    show (if k ∈ c.removedKeys held type (xs ++ ys) then none else held.strings k) =
      if k ∈ c.removedKeys first type ys then none else
        if k ∈ c.removedKeys held type xs then none else held.strings k
    rw [hkeys, if_congr (mem_removedKeys_append c) rfl rfl]
    by_cases hx : k ∈ c.removedKeys held type xs <;> simp [hx]
  · funext k
    apply Std.ExtTreeSet.ext_mem
    intro x
    rw [mem_sets_evict, mem_sets_evict, mem_sets_evict, hkeys, mem_removedKeys_append,
      List.mem_append]
    tauto

end Contents

/-! ### Sets without a member -/

/-- The store in memory that a write leaves. -/
def left (w : Write) (m : Memory) : Memory := (Action.on Memory.serve (w.perform c.writer) m).2

section Bare

variable {m m' m'' : Memory} {k : String}

/-- Nothing has been taken from the set of a key, and it is there without a member only if it was
before. -/
structure Grown (k : String) (m m' : Memory) : Prop where
  bare : m'.sets[k]? = some ∅ ↔ m.sets[k]? = some ∅ ∧ m'.setOf k = ∅
  empty : m'.setOf k = ∅ → m.setOf k = ∅

/-- A request that leaves the sets of a store alone adds no set and takes nothing away. -/
theorem Grown.of_sets (h : m'.sets = m.sets) : Grown k m m' where
  bare := by
    rw [Memory.setOf, Std.ExtTreeMap.getD_eq_getD_getElem?, h]
    exact ⟨fun hbare => ⟨hbare, by rw [hbare, Option.getD_some]⟩, And.left⟩
  empty := by rw [Memory.setOf, Memory.setOf, h]; exact id

/-- Sets that grow twice grow. -/
theorem Grown.trans (h : Grown k m m') (h' : Grown k m' m'') : Grown k m m'' where
  bare := by
    rw [h'.bare, h.bare, and_assoc]
    exact and_congr_right fun _ => ⟨And.right, fun hempty => ⟨h'.empty hempty, hempty⟩⟩
  empty hempty := h.empty (h'.empty hempty)

/-- An addition of members makes no set without a member. -/
theorem Grown.sadd {key : String} {members : List String} (h : members ≠ []) (m : Memory) :
    Grown k m (m.answer (.sadd key members)).2 := by
  by_cases hk : k = key
  -- a set with a new member is not empty, and was not bare if it is there now
  · subst hk
    obtain ⟨x, hx⟩ := List.exists_mem_of_ne_nil members h
    have hmem : x ∈ (m.answer (.sadd k members)).2.setOf k :=
      Memory.mem_setOf_sadd.2 (.inr ⟨rfl, hx⟩)
    have hempty : (m.answer (.sadd k members)).2.setOf k ≠ ∅ := fun hempty => by
      simp [hempty] at hmem
    refine ⟨⟨fun hbare => ?_, fun hbare => absurd hbare.2 hempty⟩, fun h => absurd h hempty⟩
    rw [Memory.setOf, Std.ExtTreeMap.getD_eq_getD_getElem?, hbare] at hempty
    exact absurd rfl hempty
  · have hget : (m.answer (.sadd key members)).2.sets[k]? = m.sets[k]? := by
      simp [Memory.answer, Std.ExtTreeMap.getElem?_insert, Ne.symm hk]
    constructor
    · rw [Memory.setOf, Std.ExtTreeMap.getD_eq_getD_getElem?, hget]
      exact ⟨fun hbare => ⟨hbare, by rw [hbare, Option.getD_some]⟩, And.left⟩
    · rw [Memory.setOf, Memory.setOf, Std.ExtTreeMap.getD_eq_getD_getElem?,
        Std.ExtTreeMap.getD_eq_getD_getElem?, hget]
      exact id

/-- A merge takes nothing from any set. -/
theorem grown_mergeAll (items : List Item) (m : Memory) :
    Grown k m (c.left (.merge type items) m) := by
  suffices h : ∀ {α : Type} {p : Store.Calls α}, p.Asks (c.Merges type items) →
      ∀ m, Grown k m (p.run Memory.serve m).2 from h (merges_mergeAll type items) m
  intro α p hp m
  induction p generalizing m with
  | done x => exact .of_sets rfl
  | ask r next ih =>
    refine .trans ?_ (ih _ (hp.2 _) _)
    cases hp.1 with
    | name hnames => exact .sadd hnames m
    | enter hids => exact .sadd hids m
    | put =>
      refine .of_sets ?_
      show (m.answer _).2.sets = m.sets
      rw [Memory.answer_mset]

/-- An eviction of some ids leaves a set without a member where there was one, unless it is the set
of the members or its key is removed. -/
theorem bare_evictAll (htype : ValidType type) (ids : List String) (m : Memory) :
    (c.left (.evict type ids) m).sets[k]? = some ∅ ↔
      m.sets[k]? = some ∅ ∧ k ∉ c.removedKeys m.content type ids ∧
        ¬(k = c.membersKey type ∧ ids ≠ []) := by
  show (Action.on Memory.serve (c.evictAll type ids) m).2.sets[k]? = some ∅ ↔ _
  rw [evictAll, Action.on_bind_ok _ _ (on_validate _ htype m)]
  by_cases hempty : (distinct ids).isEmpty
  · rw [if_pos hempty]
    rw [List.isEmpty_iff, distinct_eq_nil] at hempty
    subst hempty
    simp [removedKeys]
  rw [if_neg hempty, Action.on_bind_ok _ _ (on_call _ m), Action.on_bind_ok _ _ (on_call _ _),
    Action.on_bind_ok _ _ (on_call _ _)]
  rw [List.isEmpty_iff, distinct_eq_nil] at hempty
  show ((m.answer (.del (c.removedKeys m.content type ids))).2.answer
    (.srem (c.membersKey type) _)).2.sets[k]? = some ∅ ↔ _
  -- only the removal of members, not that of keys, leaves a set without a member
  by_cases hk : k = c.membersKey type
  · subst hk
    simp [Memory.getElem?_sets_srem_ne, hempty]
  · rw [Memory.getElem?_sets_srem_of_ne hk, Memory.getElem?_sets_del]
    by_cases hkeys : k ∈ c.removedKeys m.content type ids <;> simp [hkeys, hk]

end Bare

/-! ### Closed databases -/

section Closed

variable {d : Database}

/-- The failure of every operation that has something to ask of a closed database. -/
def closedFailure : DomainError := .ofStoreError (.query StoreError.poolClosed)

/-- A closed database fails at the first request that it would have to make a statement for. -/
theorem on_call_closed (hd : d.isOpen = false) {r : Store.Request}
    (hr : (Database.plan r).isEmpty = false) {β : Type} (f : r.Answer → Action β) :
    Action.on Backing.serve (call r >>= f) (.database d) = (.error closedFailure, .database d) := by
  have hserve : Backing.serve r (.database d) =
      (.error (.query StoreError.poolClosed), .database d) := by
    simp [Backing.serve, Database.serve, hd, hr]
  have hcall : Action.on Backing.serve (call r) (.database d) =
      (.error closedFailure, .database d) := by
    show ((Backing.serve r (.database d)).1.mapError DomainError.ofStoreError,
      (Backing.serve r (.database d)).2) = _
    rw [hserve]
    rfl
  rw [Action.on_bind, hcall]

/-- A list with elements is cut into at least one chunk. -/
theorem chunks_isEmpty {α : Type} {l : List α} (h : l ≠ []) :
    (Database.chunks l).isEmpty = false := by
  obtain ⟨x, xs, rfl⟩ := List.exists_cons_of_ne_nil h
  rw [Database.chunks]
  rfl

/-- A merge of items that are not all blank fails on a closed database. -/
theorem on_mergeAll_closed (htype : ValidType type) (hd : d.isOpen = false) (items : List Item) :
    Action.on Backing.serve (c.mergeAll type items) (.database d) =
      (if items.all (·.isBlank) then .ok () else .error closedFailure, .database d) := by
  rw [mergeAll, Action.on_bind_ok _ _ (on_validate _ htype _)]
  by_cases hblank : items.all (·.isBlank)
  · have hempty : (items.filter (!·.isBlank)).isEmpty := by
      simpa [List.filter_eq_nil_iff] using hblank
    rw [if_pos hempty, if_pos hblank]
    rfl
  have hempty : ¬(items.filter (!·.isBlank)).isEmpty := by
    simpa [List.filter_eq_nil_iff] using hblank
  rw [if_neg hempty, if_neg hblank]
  by_cases hnames : relationshipNames items = []
  · -- without relationships an item that is not blank has attributes to write
    have hentries : items.flatMap (c.entries type) ≠ [] := by
      obtain ⟨item, hitem, hwritten⟩ : ∃ item ∈ items, item.isBlank = false := by
        simpa using hblank
      have hnone : item.relationships.isEmpty := by
        rw [Std.ExtTreeMap.isEmpty_iff, Std.ExtTreeMap.eq_empty_iff_forall_not_mem]
        intro name hname
        have := mem_relationshipNames.2 ⟨item, hitem, hname⟩
        simp [hnames] at this
      have hattributes : item.attributes.isEmpty = false := by
        simpa [Entity.isBlank, hnone] using hwritten
      intro hnil
      have := List.flatMap_eq_nil_iff.1 hnil item hitem
      simp [entries, hattributes] at this
    have hno : (!(relationshipNames items).isEmpty) = true ↔ False := by simp [hnames]
    simp only [hno, if_false]
    exact on_call_closed hd (by simpa [Database.plan] using chunks_isEmpty hentries) _
  · have hyes : (!(relationshipNames items).isEmpty) = true ↔ True := by simp [hnames]
    simp only [hyes, if_true]
    exact on_call_closed hd (by simpa [Database.plan] using chunks_isEmpty hnames) _

/-- An eviction of ids fails on a closed database. -/
theorem on_evictAll_closed (htype : ValidType type) (hd : d.isOpen = false) (ids : List String) :
    Action.on Backing.serve (c.evictAll type ids) (.database d) =
      (if ids.isEmpty then .ok () else .error closedFailure, .database d) := by
  rw [evictAll, Action.on_bind_ok _ _ (on_validate _ htype _)]
  by_cases hempty : (distinct ids).isEmpty
  · rw [if_pos hempty]
    rw [List.isEmpty_iff, distinct_eq_nil] at hempty
    subst hempty
    rfl
  · rw [if_neg hempty]
    rw [List.isEmpty_iff, distinct_eq_nil, ← List.isEmpty_iff] at hempty
    rw [if_neg hempty]
    exact on_call_closed hd rfl _

end Closed

/-! ### Two lists -/

variable {w₁ w₂ w : Write}

/-- A write leaves the content that its requests carry out. -/
theorem content_left (h : ValidType w.type) (m : Memory) :
    (c.left w m).content = m.content.carryOut (w.requests c m.content) := by
  obtain ⟨b', hon, hcontent⟩ := c.perform_backing (b := .memory m) trivial h
  rw [Action.on, Backing.run_memory] at hon
  obtain ⟨-, rfl⟩ := Prod.mk.inj hon
  exact hcontent

/-- Two writes and a third one that makes of any content what they make of it succeed on a store
that attends to them, and leave the same content. -/
theorem exists_left (h₁ : ValidType w₁.type) (h₂ : ValidType w₂.type) (h : ValidType w.type)
    (hcontent : ∀ held : Content, let first := held.carryOut (w₁.requests c held)
      held.carryOut (w.requests c held) = first.carryOut (w₂.requests c first))
    {b : Backing} (hb : b.Ready) :
    ∃ b₁ b₂ b', Action.on Backing.serve (w₁.perform c.writer) b = (.ok (), b₁) ∧
      Action.on Backing.serve (w₂.perform c.writer) b₁ = (.ok (), b₂) ∧
      Action.on Backing.serve (w.perform c.writer) b = (.ok (), b') ∧
      b₂.Ready ∧ b'.Ready ∧ b₂.content = b'.content := by
  obtain ⟨b₁, hon₁, hcontent₁⟩ := c.perform_backing hb h₁
  have hready₁ := (c.performs_write Backing.attends hb h₁).ready
  rw [hon₁] at hready₁
  obtain ⟨b₂, hon₂, hcontent₂⟩ := c.perform_backing hready₁ h₂
  have hready₂ := (c.performs_write Backing.attends hready₁ h₂).ready
  rw [hon₂] at hready₂
  obtain ⟨b', hon', hcontent'⟩ := c.perform_backing hb h
  have hready' := (c.performs_write Backing.attends hb h).ready
  rw [hon'] at hready'
  -- both ways end on the content that the requests carry out, which the hypothesis compares
  exact ⟨b₁, b₂, b', hon₁, hon₂, hon', hready₂, hready',
    by rw [hcontent₂, hcontent', hcontent, hcontent₁]⟩

/-- Two writes are the same as a third one if they are on contents, on the sets in memory that have
no member, and on a closed database. -/
theorem sameOn_append (h₁ : ValidType w₁.type) (h₂ : ValidType w₂.type) (h : ValidType w.type)
    (hcontent : ∀ held : Content, let first := held.carryOut (w₁.requests c held)
      held.carryOut (w.requests c held) = first.carryOut (w₂.requests c first))
    (hbare : ∀ m, (c.left w₂ (c.left w₁ m)).content = (c.left w m).content → ∀ k : String,
      (c.left w₂ (c.left w₁ m)).sets[k]? = some ∅ ↔ (c.left w m).sets[k]? = some ∅)
    (hclosed : ∀ d : Database, d.isOpen = false →
      Action.on Backing.serve (w₁.perform c.writer >>= fun _ => w₂.perform c.writer) (.database d) =
        Action.on Backing.serve (w.perform c.writer) (.database d)) :
    SameOn (w₁.perform c.writer >>= fun _ => w₂.perform c.writer) (w.perform c.writer) := by
  intro b hb
  cases b with
  | memory m =>
    obtain ⟨b₁, b₂, b', hon₁, hon₂, hon', -, -, hsame⟩ :=
      c.exists_left (b := .memory m) h₁ h₂ h hcontent trivial
    rw [Action.on_bind_ok _ _ hon₁, hon₂, hon']
    refine ⟨rfl, ?_⟩
    rw [Action.on, Backing.run_memory] at hon₁ hon'
    obtain ⟨-, rfl⟩ := Prod.mk.inj hon₁
    obtain ⟨-, rfl⟩ := Prod.mk.inj hon'
    rw [Action.on, Backing.run_memory] at hon₂
    obtain ⟨-, rfl⟩ := Prod.mk.inj hon₂
    -- in memory the content says nothing of bare sets, hence the second hypothesis
    have heq : c.left w₂ (c.left w₁ m) = c.left w m :=
      Memory.eq_of_content hsame (hbare m hsame)
    show Backing.Same (.memory (c.left w₂ (c.left w₁ m))) (.memory (c.left w m))
    rw [heq]
    exact .memory _
  | database d =>
    cases hopen : d.isOpen with
    | false =>
      rw [hclosed d hopen]
      exact ⟨rfl, .refl _⟩
    | true =>
      obtain ⟨b₁, b₂, b', hon₁, hon₂, hon', hready₂, hready', hsame⟩ :=
        c.exists_left (b := .database d) h₁ h₂ h hcontent ⟨hopen, hb⟩
      rw [Action.on_bind_ok _ _ hon₁, hon₂, hon']
      refine ⟨rfl, ?_⟩
      rw [Action.on, Backing.run_database] at hon₁ hon'
      obtain ⟨-, rfl⟩ := Prod.mk.inj hon₁
      obtain ⟨-, rfl⟩ := Prod.mk.inj hon'
      rw [Action.on, Backing.run_database] at hon₂
      obtain ⟨-, rfl⟩ := Prod.mk.inj hon₂
      -- in a database there are no bare sets, so equal contents have the same rows
      obtain ⟨hstrings, hsets⟩ := Store.Tables.perm_of_content hready₂.2 hready'.2 hsame
      exact .database (hready₂.1.trans hready'.1.symm) hstrings hsets

/-- Merging two lists of items in turn and merging them as one cannot be told apart by the store. -/
theorem sameOn_mergeAll (htype : ValidType type) (xs ys : List Item) :
    SameOn (c.mergeAll type xs >>= fun _ => c.mergeAll type ys) (c.mergeAll type (xs ++ ys)) := by
  show SameOn ((Write.merge type xs).perform c.writer >>= fun _ =>
    (Write.merge type ys).perform c.writer) ((Write.merge type (xs ++ ys)).perform c.writer)
  refine c.sameOn_append htype htype htype (c.carryOut_merge_append xs ys) ?bare ?closed
  -- merges only add members: what is bare afterwards was bare before and has stayed so
  case bare =>
    intro m hsame k
    have hset : (c.left (.merge type ys) (c.left (.merge type xs) m)).setOf k =
        (c.left (.merge type (xs ++ ys)) m).setOf k := congrFun (congrArg Content.sets hsame) k
    have hparts : Grown k m (c.left (.merge type ys) (c.left (.merge type xs) m)) :=
      (c.grown_mergeAll xs m).trans (c.grown_mergeAll ys _)
    have hwhole : Grown k m (c.left (.merge type (xs ++ ys)) m) := c.grown_mergeAll (xs ++ ys) m
    rw [hparts.bare, hwhole.bare, hset]
  -- a closed database refuses at the first part that is not blank, as it refuses the whole
  case closed =>
    intro d hd
    have hclosed := c.on_mergeAll_closed htype hd
    show Action.on Backing.serve (c.mergeAll type xs >>= fun _ => c.mergeAll type ys) _ =
      Action.on Backing.serve (c.mergeAll type (xs ++ ys)) _
    rw [Action.on_bind, hclosed, hclosed, List.all_append]
    cases xs.all (·.isBlank) with
    | true => exact hclosed ys
    | false => rfl

/-- Evicting two lists of ids in turn and evicting them as one cannot be told apart by the store. -/
theorem sameOn_evictAll (htype : ValidType type) (xs ys : List String) :
    SameOn (c.evictAll type xs >>= fun _ => c.evictAll type ys) (c.evictAll type (xs ++ ys)) := by
  show SameOn ((Write.evict type xs).perform c.writer >>= fun _ =>
    (Write.evict type ys).perform c.writer) ((Write.evict type (xs ++ ys)).perform c.writer)
  refine c.sameOn_append htype htype htype (c.carryOut_evict_append htype xs ys) ?bare ?closed
  case bare =>
    intro m _ k
    have hkeys := c.removedKeys_evict htype xs ys m.content
    rw [← c.content_left (w := .evict type xs) htype] at hkeys
    rw [bare_evictAll c htype, bare_evictAll c htype, bare_evictAll c htype, hkeys,
      mem_removedKeys_append, ne_eq (xs ++ ys), List.append_eq_nil_iff]
    tauto
  -- every eviction that names an id asks the database, so the first list decides
  case closed =>
    intro d hd
    have hclosed := c.on_evictAll_closed htype hd
    show Action.on Backing.serve (c.evictAll type xs >>= fun _ => c.evictAll type ys) _ =
      Action.on Backing.serve (c.evictAll type (xs ++ ys)) _
    rw [Action.on_bind, hclosed, hclosed]
    cases xs with
    | nil => exact hclosed ys
    | cons x xs => rfl

theorem sameOn_mergeAll_nil (htype : ValidType type) : SameOn (pure ()) (c.mergeAll type []) := by
  intro b _
  rw [mergeAll, Action.on_bind_ok _ _ (on_validate _ htype b)]
  exact ⟨rfl, .refl b⟩

theorem sameOn_evictAll_nil (htype : ValidType type) : SameOn (pure ()) (c.evictAll type []) := by
  intro b _
  rw [evictAll, Action.on_bind_ok _ _ (on_validate _ htype b)]
  exact ⟨rfl, .refl b⟩

/-- A store is left the same, and the operations answer the same. -/
theorem transparent (htype : ValidType type) : c.writer.Transparent type SameOn :=
  .of_append congruence_sameOn (c.sameOn_mergeAll_nil htype) (c.sameOn_mergeAll htype)
    (c.sameOn_evictAll_nil htype) (c.sameOn_evictAll htype)

end KeyValueCache

/-! ## Both -/

/-- Merging a list of items leaves a cache as merging it part by part does, however it is cut, and
as merging the items one at a time does; and evicting a list of ids leaves it as evicting the parts
or the ids does.  This is so for a direct cache and any type, and for a cache on a store of either
kind, whatever it holds, and any valid type.  The operations also come to the same result. -/
theorem batching_transparent :
    (∀ type, DirectCache.writer.Transparent type (· = ·)) ∧
      ∀ (c : KeyValueCache) (type : String), KeyValueCache.ValidType type →
        c.writer.Transparent type KeyValueCache.SameOn :=
  ⟨DirectCache.transparent, fun c _ htype => c.transparent htype⟩

/-- Hosts in three parts, one of them empty: a host comes again with a relationship, and with it one
that has nothing to store and one that has a relationship alone. -/
def hostParts : List (List Item) :=
  [[(({ id := "a" } : Entity).withAttribute "ready" (.bool true)).listed], [],
    [(({ id := "a" } : Entity).withRelationship "rack" ["r"]).listed,
      ({ id := "b" } : Entity).listed,
      (({ id := "c" } : Entity).withRelationship "disks" ["d"]).listed]]

/-- The hosts are merged into a new database in three parts and in one, and both times three strings
and four members are there. -/
theorem batching_transparent_hosts :
    let cache := KeyValueCache.mk "fleetcache"
    let parts := KeyValueCache.Action.on Store.Backing.serve
      (hostParts.forM (cache.writer.mergeAll "host")) (.database {})
    let whole := KeyValueCache.Action.on Store.Backing.serve
      (cache.writer.mergeAll "host" hostParts.flatten) (.database {})
    KeyValueCache.ValidType "host" ∧ parts.1 = .ok () ∧ whole.1 = .ok () ∧ parts.2.Same whole.2 ∧
      ∃ d : Store.Database, whole.2 = .database d ∧
        d.tables.strings.length = 3 ∧ d.tables.sets.length = 4 := by
  intro cache parts whole
  have htype : KeyValueCache.ValidType "host" := by decide
  obtain ⟨hresult, hsame⟩ :=
    (batching_transparent.2 cache "host" htype).mergeParts hostParts (.database {})
      Store.Tables.sound_empty
  have hparts : parts.1 = .ok () := by decide +kernel
  refine ⟨htype, hparts, hresult.symm.trans hparts, hsame, ?_⟩
  -- what the whole leaves is a database, whose tables can then be counted
  have hwhole : whole.2 = .database (Program.run Store.Database.serve
      (cache.writer.mergeAll "host" hostParts.flatten).run {}).2 :=
    congrArg Prod.snd (Store.Backing.run_database _ _)
  exact ⟨_, hwhole, by decide +kernel, by decide +kernel⟩

end EntityCache
