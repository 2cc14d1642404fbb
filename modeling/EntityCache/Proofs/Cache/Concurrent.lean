import EntityCache.Proofs.Cache.Interruption
import EntityCache.Proofs.Cache.Reached

/-!
# Merges side by side

Merges that have no id of the same type in common may run side by side on one store and nothing is
lost, though they share the index and the members of a type.  For adding to a set commutes with
everything that a merge does, and the strings of two such merges have different keys as long as the
names of relationships are `Separable`.  So all their requests are independent of each other, and
however they are interleaved, the store comes to hold what it would hold if the merges had been made
one after another, in whatever order (`nothingLost_of_interleave`).
-/

namespace EntityCache

open Store (Backing Calls Content)

/-- Items of a type that are merged by one call. -/
structure Batch where
  type : String
  items : List Item

namespace Batch

/-- The merge of a batch as a write. -/
def write (b : Batch) : Write := .merge b.type b.items

/-- Two batches have no id of the same type in common. -/
def Apart (b b' : Batch) : Prop :=
  b.type = b'.type → ∀ item ∈ b.items, ∀ item' ∈ b'.items, item.id ≠ item'.id

/-- Batches are apart from each other. -/
theorem Apart.symm {b b' : Batch} (h : b.Apart b') : b'.Apart b :=
  fun htype item' hitem' item hitem heq => h htype.symm item hitem item' hitem' heq.symm

/-- The items of a type in some batches, in order. -/
def itemsOf (batches : List Batch) (type : String) : List Item :=
  batches.flatMap fun b => if b.type = type then b.items else []

variable {batches : List Batch} {type id : String}

/-- The items of a type are those of its batches. -/
theorem mem_itemsOf {item : Item} :
    item ∈ itemsOf batches type ↔ ∃ b ∈ batches, b.type = type ∧ item ∈ b.items := by
  rw [itemsOf, List.mem_flatMap]
  refine exists_congr fun b => and_congr_right fun _ => ?_
  split
  case isTrue h => simp [h]
  case isFalse h => simp [h]

/-- The other batches do nothing to the entity of an id of a batch that is apart from them. -/
theorem foldl_itemsOf {b : Batch} (hb : b ∈ batches) (hapart : batches.Pairwise Apart)
    {item : Item} (hitem : item ∈ b.items) (old : Option Entity) :
    (itemsOf batches b.type).foldl (DirectCache.upsertItem item.id) old =
      b.items.foldl (DirectCache.upsertItem item.id) old := by
  obtain ⟨before, after, rfl⟩ := List.append_of_mem hb
  rw [List.pairwise_append, List.pairwise_cons] at hapart
  obtain ⟨-, ⟨hafter, -⟩, hbefore⟩ := hapart
  have hother {others : List Batch} (h : ∀ b' ∈ others, b.Apart b') (old : Option Entity) :
      (itemsOf others b.type).foldl (DirectCache.upsertItem item.id) old = old := by
    refine DirectCache.foldl_upsertItem_of_ne (fun other hmem => ?_) old
    obtain ⟨b', hb', htype, hitem'⟩ := mem_itemsOf.1 hmem
    exact (h b' hb' htype.symm item hitem other hitem').symm
  have hsplit : itemsOf (before ++ b :: after) b.type =
      itemsOf before b.type ++ (b.items ++ itemsOf after b.type) := by
    simp [itemsOf]
  rw [hsplit, List.foldl_append, List.foldl_append, hother fun b' hb' =>
    (hbefore b' hb' b List.mem_cons_self).symm, hother hafter]

end Batch

namespace KeyValueCache

variable (c : KeyValueCache) {names : Set String} {batches : List Batch}

/-! ## Independent merges -/

/-- Adding to a set is independent of all that a merge does. -/
theorem independent_sadd_requests (key : String) (members : List String) (b : Batch)
    (held : Content) : ∀ r ∈ b.write.requests c held,
      Content.Independent (.sadd key members) r := by
  intro r hr
  simp only [Batch.write, Write.requests, List.mem_cons, List.not_mem_nil, or_false] at hr
  rcases hr with rfl | rfl | rfl
  · exact Content.independent_sadd_sadd _ _ _ _
  · exact Content.independent_sadd_mset _ _ _
  · exact Content.independent_sadd_sadd _ _ _ _

/-- The requests of a merge are independent of each other. -/
theorem requests_independent (b : Batch) (held : Content) :
    (b.write.requests c held).Pairwise Content.Independent := by
  simp only [Batch.write, Write.requests, List.pairwise_cons, List.forall_mem_cons,
    List.not_mem_nil, false_imp_iff, implies_true, List.Pairwise.nil, and_true]
  exact ⟨⟨Content.independent_sadd_mset _ _ _, Content.independent_sadd_sadd _ _ _ _⟩,
    (Content.independent_sadd_mset _ _ _).symm⟩

/-- The strings of two merges that are apart have different keys. -/
theorem independent_entries (hnames : Separable names) {b b' : Batch}
    (hb : b.write.Within names) (hb' : b'.write.Within names) (hapart : b.Apart b') :
    Content.Independent (.mset (b.items.flatMap (c.entries b.type)))
      (.mset (b'.items.flatMap (c.entries b'.type))) := by
  obtain ⟨htype, hitems⟩ := hb
  obtain ⟨htype', hitems'⟩ := hb'
  refine Content.independent_mset_mset fun k hk hk' => ?_
  obtain ⟨item, hitem, hkey⟩ := c.exists_item_of_mem_keys hk
  obtain ⟨item', hitem', hkey'⟩ := c.exists_item_of_mem_keys hk'
  -- two batches could only meet in a key of the same kind, of the same type and id
  rcases hkey with rfl | ⟨name, hname, rfl⟩
  · rcases hkey' with hkey' | ⟨name', -, hkey'⟩
    · obtain ⟨hsame, hid⟩ := (c.attributesKey_inj htype htype').1 hkey'
      exact hapart hsame item hitem item' hitem' hid
    · exact c.attributesKey_ne_relationshipKey htype htype' hkey'
  · rcases hkey' with hkey' | ⟨name', hname', hkey'⟩
    · exact c.attributesKey_ne_relationshipKey htype' htype hkey'.symm
    · obtain ⟨hsame, hid, -⟩ := (c.relationshipKey_inj hnames htype htype'
        (hitems item hitem name hname) (hitems' item' hitem' name' hname')).1 hkey'
      exact hapart hsame item hitem item' hitem' hid

/-- The requests of two merges that are apart are independent of each other. -/
theorem independent_of_apart (hnames : Separable names) {b b' : Batch}
    (hb : b.write.Within names) (hb' : b'.write.Within names) (hapart : b.Apart b')
    (held : Content) : ∀ r ∈ b.write.requests c held, ∀ r' ∈ b'.write.requests c held,
      Content.Independent r r' := by
  intro r hr r' hr'
  have hsadd := c.independent_sadd_requests
  simp only [Batch.write, Write.requests, List.mem_cons, List.not_mem_nil, or_false] at hr
  rcases hr with rfl | rfl | rfl
  · exact hsadd _ _ b' held r' hr'
  · simp only [Batch.write, Write.requests, List.mem_cons, List.not_mem_nil, or_false] at hr'
    rcases hr' with rfl | rfl | rfl
    · exact (Content.independent_sadd_mset _ _ _).symm
    · exact c.independent_entries hnames hb hb' hapart
    · exact (Content.independent_sadd_mset _ _ _).symm
  · exact hsadd _ _ b' held r' hr'

/-- The requests of merges that are apart, all together. -/
theorem pairwise_independent (hnames : Separable names)
    (hwithin : ∀ b ∈ batches, b.write.Within names) (hapart : batches.Pairwise Batch.Apart)
    (held : Content) :
    (batches.map fun b => b.write.requests c held).flatten.Pairwise Content.Independent := by
  rw [List.pairwise_flatten, List.forall_mem_map, List.pairwise_map]
  refine ⟨fun b _ => c.requests_independent b held, hapart.imp_of_mem ?_⟩
  intro b b' hb hb' h
  exact c.independent_of_apart hnames (hwithin b hb) (hwithin b' hb') h held

/-- Merges one after another carry all their requests out. -/
theorem exists_performAll_batches (before : Backing) (hready : before.Ready)
    (htypes : ∀ b ∈ batches, ValidType b.type) :
    ∃ last, Action.on Backing.serve (Write.performAll c.writer (batches.map (·.write))) before =
        (.ok (), last) ∧
      last.content =
        before.content.carryOut (batches.map fun b => b.write.requests c .empty).flatten := by
  -- the requests do not depend on the store, as a merge writes without looking
  induction batches generalizing before with
  | nil => exact ⟨before, rfl, rfl⟩
  | cons b rest ih =>
    obtain ⟨htype, htypes⟩ := List.forall_mem_cons.1 htypes
    replace htype : ValidType b.write.type := htype
    obtain ⟨next, hperform, hnext⟩ := c.perform_backing hready htype
    have hready' := (c.performs_write Backing.attends hready htype).ready
    rw [hperform] at hready'
    obtain ⟨last, hlast, hcontent⟩ := ih _ hready' htypes
    refine ⟨last, ?_, ?_⟩
    · rw [List.map_cons, Write.performAll, Action.on_bind_ok _ _ hperform, hlast]
    · rw [List.map_cons, List.flatten_cons, Content.carryOut_append, hcontent, hnext]
      rfl

/-! ## What merges leave for an id -/

/-- A merge lays its items over the entity of an id, if it is on the type. -/
theorem Merged.partsOf {t type id : String} (hnames : Separable names) (ht : ValidType t)
    (htype : ValidType type) {m m' : Store.Memory} {items : List Item}
    (hmerged : c.Merged t items m m')
    (hitems : ∀ item ∈ items, ∀ name ∈ item.relationships, name ∈ names)
    {e : Option Entity} (h : c.PartsOf names type id (m.strings[·]?) e) :
    c.PartsOf names type id (m'.strings[·]?)
      ((if t = type then items else []).foldl (DirectCache.upsertItem id) e) := by
  by_cases hsame : t = type
  · subst hsame
    rw [if_pos rfl, hmerged.strings]
    exact h.mergeAll c hnames ht hitems
  -- a merge into another type changes no key of this one
  · rw [if_neg hsame]
    refine ⟨?_, fun name hname => ?_⟩
    · simp only [attributesKey_eq, hmerged.strings_other c ht htype hsame]
      rw [← attributesKey_eq]
      exact h.attributes
    · simp only [relationshipKey_eq, hmerged.strings_other c ht htype hsame]
      rw [← relationshipKey_eq]
      exact h.relationships name hname

/-- What merges one after another leave in memory: their items lie over the entities, and all ids of
items that are not blank are members. -/
structure MergedAll (names : Set String) (batches : List Batch) (m m' : Store.Memory) : Prop where
  parts : ∀ {type}, ValidType type → ∀ {id e}, c.PartsOf names type id (m.strings[·]?) e →
    c.PartsOf names type id (m'.strings[·]?)
      ((Batch.itemsOf batches type).foldl (DirectCache.upsertItem id) e)
  grown : ∀ key, ∀ x ∈ m.setOf key, x ∈ m'.setOf key
  members : ∀ b ∈ batches, ∀ item ∈ b.items, item.isBlank = false →
    item.id ∈ m'.setOf (c.membersKey b.type)

/-- In turn, all batches are merged without a failure. -/
theorem exists_mergedAll (hnames : Separable names)
    (hwithin : ∀ b ∈ batches, b.write.Within names) (m : Store.Memory) :
    ∃ m', Action.on Store.Memory.serve (Write.performAll c.writer (batches.map (·.write))) m =
        (.ok (), m') ∧ c.MergedAll names batches m m' := by
  -- the batches are merged in turn, each on what those before it have left
  induction batches generalizing m with
  | nil => exact ⟨m, rfl, fun _ _ _ h => h, fun _ _ h => h, List.forall_mem_nil _⟩
  | cons b rest ih =>
    obtain ⟨⟨htype, hitems⟩, hrest⟩ := List.forall_mem_cons.1 hwithin
    obtain ⟨m₁, hmerge, hmerged⟩ := c.on_mergeAll htype b.items m
    obtain ⟨m', hrun, hall⟩ := ih hrest m₁
    have hperform : Action.on Store.Memory.serve (b.write.perform c.writer) m = (.ok (), m₁) :=
      hmerge
    refine ⟨m', ?_, ?_, ?_, ?_⟩
    · rw [List.map_cons, Write.performAll, Action.on_bind_ok _ _ hperform, hrun]
    · intro type htype' id e h
      rw [Batch.itemsOf, List.flatMap_cons, List.foldl_append]
      exact hall.parts htype' (hmerged.partsOf c hnames htype htype' hitems h)
    · exact fun key x hx => hall.grown key x ((hmerged.sets key x).2 (.inl hx))
    · refine List.forall_mem_cons.2 ⟨fun item hitem hblank => ?_, hall.members⟩
      exact hall.grown _ _ ((hmerged.sets _ _).2 (.inr (.inr ⟨rfl, item, hitem, hblank, rfl⟩)))

/-! ## Nothing is lost -/

/-- What merges have made of a store, if nothing has been lost: it holds the strings and sets that
any order of the merges, one after another, would have left; all ids with something to store are
listed; the entity of an id is the one of before with the items of its own batch laid over it; and
that of any other id is the one of before. -/
structure NothingLost (names : Set String) (batches : List Batch) (before after : Backing) :
    Prop where
  sequential : ∀ order : List Batch, order.Perm batches →
    ∃ last, Action.on Backing.serve (Write.performAll c.writer (order.map (·.write))) before =
      (.ok (), last) ∧ after.content = last.content
  listed : ∀ b ∈ batches, ∀ item ∈ b.items, item.isBlank = false →
    ∃ ids, (Action.on Backing.serve (c.reader.getIdentifiers b.type) after).1 = .ok ids ∧
      item.id ∈ ids
  initial : ∀ type, ValidType type → ∀ id, ∃ e, c.Stores names before type id e
  upserted : ∀ b ∈ batches, ∀ item ∈ b.items, ∀ e, c.Stores names before b.type item.id e →
    c.Stores names after b.type item.id (b.items.foldl (DirectCache.upsertItem item.id) e)
  others : ∀ type, ValidType type → ∀ id,
    (∀ b ∈ batches, b.type = type → ∀ item ∈ b.items, item.id ≠ id) →
    ∀ e, c.Stores names before type id e → c.Stores names after type id e

variable {c}

/-- The items of the type have been laid over the entity of an id, and a reader finds the result. -/
theorem Stores.mergedAll {running : List (Calls (Except DomainError Unit))} {before after : Backing}
    (hafter : c.Sane names running after) {type : String} (htype : ValidType type)
    (hnamed : ∀ b ∈ batches, b.write.Named names) {m m' : Store.Memory}
    (hall : c.MergedAll names batches m m') (hbefore : before.content = m.content)
    (hmemory : after.content = m'.content) {id : String} {e : Option Entity}
    (h : c.Stores names before type id e) : c.Stores names after type id
      ((Batch.itemsOf batches type).foldl (DirectCache.upsertItem id) e) := by
  -- the parts follow the texts; id and names are kept by each item that is laid over
  refine hafter.stores htype ?parts ?keyed ?named
  case parts =>
    have hparts := h.parts
    rw [hbefore] at hparts
    rw [hmemory]
    exact hall.parts htype hparts
  case keyed =>
    refine DirectCache.forall_foldl_upsertItem h.keyed fun item _ hid old hold => ?_
    cases old with
    | none => exact hid
    | some e => exact hold e rfl
  case named =>
    refine DirectCache.forall_foldl_upsertItem h.named fun item hitem _ old hold name hname => ?_
    rcases (DirectCache.mem_relationships_laidOver old item name).1 hname with
      hname | ⟨e, he, hname⟩
    · obtain ⟨b, hb, -, hitem⟩ := Batch.mem_itemsOf.1 hitem
      exact hnamed b hb item hitem name hname
    · exact hold e he name hname

/-- A store that holds what the requests of the merges make of another one has lost nothing. -/
theorem nothingLost_of_content (hnames : Separable names)
    {running running' : List (Calls (Except DomainError Unit))} {before after : Backing}
    (hbefore : c.Reached names running before) (hafter : c.Reached names running' after)
    (hwithin : ∀ b ∈ batches, b.write.Within names) (hapart : batches.Pairwise Batch.Apart)
    (hcontent : after.content =
      before.content.carryOut (batches.map fun b => b.write.requests c .empty).flatten) :
    c.NothingLost names batches before after := by
  obtain ⟨m, htwin⟩ := (hbefore.sane hnames).twin
  have hsequential (order : List Batch) (hperm : order.Perm batches) :
      ∃ last, Action.on Backing.serve (Write.performAll c.writer (order.map (·.write))) before =
        (.ok (), last) ∧ after.content = last.content := by
    obtain ⟨last, hlast, hleft⟩ := c.exists_performAll_batches before htwin.ready
      fun b hb => (hwithin b (hperm.mem_iff.1 hb)).1
    refine ⟨last, hlast, ?_⟩
    rw [hcontent, hleft]
    exact Content.carryOut_perm (hperm.symm.map _).flatten
      (c.pairwise_independent hnames hwithin hapart .empty) _
  -- in memory the merges are seen one after another, and what they leave is what is there
  obtain ⟨m', hrun, hall⟩ := c.exists_mergedAll hnames hwithin m
  have hmemory : after.content = m'.content := by
    obtain ⟨last, hlast, hleft⟩ := c.exists_performAll_batches (.memory m) trivial
      fun b hb => (hwithin b hb).1
    rw [Action.on, Backing.run_memory, ← Action.on, hrun] at hlast
    cases hlast
    rw [hcontent, htwin.content_eq]
    exact hleft.symm
  have hstores {type : String} (htype : ValidType type) {id : String} {e : Option Entity}
      (h : c.Stores names before type id e) := h.mergedAll (hafter.sane hnames) htype
    (fun b hb => (hwithin b hb).2) hall htwin.content_eq hmemory
  refine ⟨hsequential, fun b hb item hitem hblank => ?_,
    fun type htype id => hbefore.exists_stores hnames htype id,
    fun b hb item hitem e h => ?_, fun type htype id hother e h => ?_⟩
  · refine ⟨_, (hafter.sane hnames).getIdentifiers (hwithin b hb).1,
      Std.ExtTreeSet.mem_toList.2 ?_⟩
    rw [hmemory]
    exact hall.members b hb item hitem hblank
  · rw [← Batch.foldl_itemsOf hb hapart hitem]
    exact hstores (hwithin b hb).1 h
  · have hnone : ∀ item ∈ Batch.itemsOf batches type, item.id ≠ id := by
      intro item hitem
      obtain ⟨b, hb, hsame, hitem⟩ := Batch.mem_itemsOf.1 hitem
      exact hother b hb hsame item hitem
    rw [← DirectCache.foldl_upsertItem_of_ne hnone e]
    exact hstores htype h

variable (c) in
/-- The merges of batches as store calls. -/
def mergeCalls (batches : List Batch) : List (Calls (Except DomainError Unit)) :=
  batches.map fun b => (c.mergeAll b.type b.items).run

/-- Merges that are apart run side by side on a store that writes have reached.  Whatever turns they
take, they can all come to their ends, and once they have, all of them have succeeded and nothing is
lost. -/
theorem nothingLost_of_interleave {running : List (Calls (Except DomainError Unit))}
    {before : Backing} (hreached : c.Reached {name | ':' ∉ name.toList} running before)
    (hwithin : ∀ b ∈ batches, b.write.Within {name | ':' ∉ name.toList})
    (hapart : batches.Pairwise Batch.Apart) (turns : List Nat) :
    (∃ more,
      ∀ p ∈ (Program.interleave Backing.serve (turns ++ more) (c.mergeCalls batches) before).1,
        p.value?.isSome) ∧
    ((∀ p ∈ (Program.interleave Backing.serve turns (c.mergeCalls batches) before).1,
        p.value?.isSome) →
      (∀ p ∈ (Program.interleave Backing.serve turns (c.mergeCalls batches) before).1,
        p.value? = some (.ok ())) ∧
      c.NothingLost {name | ':' ∉ name.toList} batches before
        (Program.interleave Backing.serve turns (c.mergeCalls batches) before).2) := by
  constructor
  · exact Program.exists_ended_append Backing.serve turns _ before
  · intro hended
    obtain ⟨m, htwin⟩ := (hreached.sane separable_colonFree).twin
    have hcarry : List.Forall₂ Store.CarriesOut
        (batches.map fun b => b.write.requests c .empty) (c.mergeCalls batches) := by
      rw [mergeCalls, List.forall₂_map_left_iff, List.forall₂_map_right_iff, List.forall₂_same]
      exact fun b hb => c.carriesOut_mergeAll (hwithin b hb).1 b.items .empty
    -- independent requests leave in any turns what they leave one batch after the other
    obtain ⟨hvalues, hcontent⟩ := Store.content_interleave Backing.attends htwin.ready hcarry
      (c.pairwise_independent separable_colonFree hwithin hapart .empty) hended
    have hnamed : ∀ write ∈ batches.map (·.write), write.Named {name | ':' ∉ name.toList} :=
      List.forall_mem_map.2 fun b hb => (hwithin b hb).2
    have hbegun := hreached.abandonAll.beginAll hnamed
    rw [List.map_map] at hbegun
    exact ⟨hvalues, nothingLost_of_content separable_colonFree hreached (hbegun.interleave turns)
      hwithin hapart hcontent⟩

/-- A host in a rack. -/
def firstHost : Write :=
  .merge "host" [(({ id := "a" } : Entity).withRelationship "rack" ["r"]).listed]

/-- Two batches of hosts: one adds to the first host, the other brings a new one. -/
def hostBatches : List Batch :=
  [⟨"host", [(({ id := "a" } : Entity).withRelationship "disks" ["d"]).listed]⟩,
    ⟨"host", [(({ id := "b" } : Entity).withRelationship "rack" ["r"]).listed]⟩]

/-- The two merges take turns request by request, and nothing is lost. -/
theorem nothingLost_of_interleave_hostBatches :
    ∃ before, (mk "fleetcache").Reached {name | ':' ∉ name.toList} [] before ∧
      (∀ p ∈ (Program.interleave Backing.serve [0, 1, 0, 1, 0, 1]
        ((mk "fleetcache").mergeCalls hostBatches) before).1, p.value? = some (.ok ())) ∧
      (mk "fleetcache").NothingLost {name | ':' ∉ name.toList} hostBatches before
        (Program.interleave Backing.serve [0, 1, 0, 1, 0, 1]
          ((mk "fleetcache").mergeCalls hostBatches) before).2 := by
  have hnamed : ∀ write ∈ [firstHost], write.Named {name | ':' ∉ name.toList} := by
    simp [firstHost, Write.Named, Entity.withRelationship]
  have hempty : (mk "fleetcache").Reached {name | ':' ∉ name.toList} [] (.memory {}) :=
    .fresh (.inl rfl)
  refine ⟨_, hempty.performAll hnamed, ?_⟩
  refine (nothingLost_of_interleave (hempty.performAll hnamed) ?_ ?_ [0, 1, 0, 1, 0, 1]).2 ?_
  · simp [hostBatches, Batch.write, Write.Within, ValidType, Entity.withRelationship]
  · simp [hostBatches, Batch.Apart, Entity.withRelationship]
  · decide +kernel

end KeyValueCache

end EntityCache
