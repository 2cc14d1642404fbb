import EntityCache.Proofs.Cache.Exchanges
import EntityCache.Proofs.Cache.Reached
import EntityCache.Proofs.Store.Record

/-!
# Whether what is there is listed

A merge writes the attributes of its ids before it makes them members, and an eviction deletes the
attributes of its ids before it takes them out of the members.  Side by side, the two may come in
each other's way: if a merge does both of its requests for an id between those of an eviction, the
eviction is `Overtaken`, and the attributes that the merge has written stay behind for an id that is
not listed, up to the next merge or eviction of the id.

This is the only way in which something that is there comes to be missing from a listing
(`listsReadable_of_interleave`).  The argument is about the record of the writes: the attributes of
an id and its membership are each decided by the last request that touches them.
-/

namespace EntityCache

open Store (Backing Calls Content TurnedOn)

namespace Store.Content

/-- A key has a string after entries have been put if it is one of theirs, or had one before. -/
theorem isSome_strings_put {entries : List (String × String)} {held : Content} {k : String} :
    ((held.put entries).strings k).isSome ↔
      k ∈ entries.map (·.1) ∨ (held.strings k).isSome := by
  induction entries generalizing held with
  | nil => simp [put]
  | cons e rest ih =>
    rw [put_cons, ih, List.map_cons, List.mem_cons]
    by_cases hk : k = e.1
    · subst hk
      simp [put]
    · simp [put, hk]

end Store.Content

namespace KeyValueCache

variable (c : KeyValueCache) {type t id : String} {r : Store.Request}

/-! ## The requests that an id is subject to -/

/-- The request writes the attributes of the id. -/
def Puts (type id : String) (r : Store.Request) : Prop :=
  ∃ entries, r = .mset entries ∧ c.attributesKey type id ∈ entries.map (·.1)

/-- The request deletes the attributes of the id. -/
def Deletes (type id : String) (r : Store.Request) : Prop :=
  ∃ keys, r = .del keys ∧ c.attributesKey type id ∈ keys

/-- The request makes the id a member. -/
def Enters (type id : String) (r : Store.Request) : Prop :=
  ∃ ids, r = .sadd (c.membersKey type) ids ∧ id ∈ ids

/-- The request takes the id out of the members. -/
def Leaves (type id : String) (r : Store.Request) : Prop :=
  ∃ ids, r = .srem (c.membersKey type) ids ∧ id ∈ ids

variable {c}

/-- A request writes or deletes the attributes of an id, or leaves them as they are. -/
theorem Makes.isSome_attributes (h : c.Makes t r) (held : Content) :
    ((held.answer r).2.strings (c.attributesKey type id)).isSome ↔
      c.Puts type id r ∨
        (held.strings (c.attributesKey type id)).isSome ∧ ¬c.Deletes type id r := by
  -- only `mset` puts strings and only `del` takes them away
  cases h with
  | look h =>
    rw [Content.answer_of_reads h.reads]
    cases h <;> simp [Puts, Deletes]
  | name | enter | leave =>
    simp [Puts, Deletes, Content.answer, Content.add, Content.takeOut, Content.change]
  | put items =>
    show ((held.put _).strings _).isSome ↔ _
    rw [Content.isSome_strings_put]
    simp [Puts, Deletes]
  | delete known ids =>
    generalize (ids.flatMap fun id =>
      known.map (c.relationshipKey t id) ++ [c.attributesKey t id]) = keys
    by_cases hkey : c.attributesKey type id ∈ keys <;>
      simp [Puts, Deletes, Content.answer, Content.remove, hkey]

/-- A request makes an id a member or takes it out, or leaves that as it is. -/
theorem Makes.mem_members (h : c.Makes t r) (htype : ValidType type) (ht : ValidType t)
    (held : Content) : id ∈ (held.answer r).2.sets (c.membersKey type) ↔
      c.Enters type id r ∨ id ∈ held.sets (c.membersKey type) ∧ ¬c.Leaves type id r := by
  -- only `sadd` and `srem` at the members of the same type count
  cases h with
  | look h =>
    rw [Content.answer_of_reads h.reads]
    cases h <;> simp [Enters, Leaves]
  | name =>
    have hkey : c.membersKey type ≠ c.indexKey t := (c.indexKey_ne_membersKey ht htype).symm
    simp [Enters, Leaves, Content.answer, Content.add, Content.change, hkey.symm,
      Function.update_of_ne hkey]
  | put items => simp [Enters, Leaves, Content.answer, Content.put]
  | enter =>
    by_cases hsame : type = t
    · subst hsame
      simp [Enters, Leaves, Content.answer, Content.add, Content.change, or_comm]
    · have hkey : c.membersKey type ≠ c.membersKey t :=
        fun heq => hsame ((c.membersKey_inj htype ht).1 heq)
      simp [Enters, Leaves, Content.answer, Content.add, Content.change, hkey.symm,
        Function.update_of_ne hkey]
  | delete known ids =>
    have hkey : c.membersKey type ∉ ids.flatMap fun id =>
        known.map (c.relationshipKey t id) ++ [c.attributesKey t id] :=
      fun hmem => (c.isStringKey_of_mem_deleted ht hmem).ne_membersKey c htype rfl
    rw [(Content.sameAt_answer hkey held).set]
    simp [Enters, Leaves]
  | leave ids =>
    by_cases hsame : type = t
    · subst hsame
      simp [Enters, Leaves, Content.answer, Content.takeOut, Content.change]
    · have hkey : c.membersKey type ≠ c.membersKey t :=
        fun heq => hsame ((c.membersKey_inj htype ht).1 heq)
      simp [Enters, Leaves, Content.answer, Content.takeOut, Content.change, hkey.symm,
        Function.update_of_ne hkey]

/-! ## Writes that have ended -/

section Complete

variable {record past future : List (Nat × Exchange Store.Request.Reply)} {i : Nat}
  {x : Exchange Store.Request.Reply}

variable (c) in
/-- What stands in each place of the record is what a write exchanges that has ended, and no request
has failed. -/
def Complete (record : List (Nat × Exchange Store.Request.Reply)) : Prop :=
  ∀ i x, (i, x) ∈ record → Answered (Program.inPlace i record) ∧
    ∃ (write : Write) (result : Except DomainError Unit),
      (write.perform c.writer).run.Takes (Program.inPlace i record) (.done result)

/-- All requests on such a record are requests of operations on valid types. -/
theorem Complete.makes (h : c.Complete record) (hx : (i, x) ∈ record) :
    ∃ t, ValidType t ∧ c.Makes t x.1 := by
  obtain ⟨hanswered, write, result, htakes⟩ := h i x hx
  rw [← Program.mem_inPlace] at hx
  cases write with
  | merge t items =>
    rcases c.requests_mergeAll htakes hanswered with hnil | ⟨ht, -⟩
    · simp [hnil] at hx
    · exact ⟨t, ht, htakes.asks (asks_mergeAll t items) x hx⟩
  | evict t ids =>
    rcases c.requests_evictAll htakes hanswered with hnil | ⟨ht, -⟩
    · simp [hnil] at hx
    · exact ⟨t, ht, htakes.asks (asks_evictAll t ids) x hx⟩

/-- An element that is nowhere else in a list marks one place in it. -/
theorem eq_of_append_cons_eq {β : Type} {before after first rest : List β} {a b : β}
    (h : before ++ a :: after = first ++ b :: rest) (hfirst : a ∉ first) (hrest : a ∉ rest) :
    before = first ∧ a = b ∧ after = rest := by
  -- element by element, as the one looked for is not among those before or after
  induction first generalizing before with
  | nil =>
    cases before with
    | nil =>
      cases h
      exact ⟨rfl, rfl, rfl⟩
    | cons _ before =>
      obtain ⟨-, rfl⟩ := List.cons.inj h
      simp at hrest
  | cons f first ih =>
    cases before with
    | nil =>
      cases h
      simp at hfirst
    | cons _ before =>
      obtain ⟨rfl, htail⟩ := List.cons.inj h
      obtain ⟨rfl, heq⟩ := ih htail fun hmem => hfirst (List.mem_cons_of_mem _ hmem)
      exact ⟨rfl, heq⟩

/-- A merge that writes the attributes of an id makes it a member later. -/
theorem Complete.exists_enters (h : c.Complete record) (htype : ValidType type)
    (hrecord : record = past ++ (i, x) :: future)
    (hputs : c.Puts type id x.1) : ∃ y, (i, y) ∈ future ∧ c.Enters type id y.1 := by
  obtain ⟨hanswered, write, result, htakes⟩ := h i x (by simp [hrecord])
  obtain ⟨entries, hx, hkey⟩ := hputs
  rw [hrecord, Program.inPlace_append, Program.inPlace_cons_self] at htakes hanswered
  cases write with
  | evict t ids =>
    rcases c.requests_evictAll htakes hanswered with hnil | ⟨-, known, hrequests⟩
    · simp at hnil
    · have hmem : x.1 ∈ (Program.inPlace i past ++ x :: Program.inPlace i future).map (·.1) := by
        simp
      rw [hrequests, hx] at hmem
      simp at hmem
  | merge t items =>
    rcases c.requests_mergeAll htakes hanswered with hnil | ⟨ht, first, hfirst, hrequests⟩
    · simp at hnil
    rw [List.map_append, List.map_cons] at hrequests
    obtain ⟨-, hput, hafter⟩ := eq_of_append_cons_eq hrequests
      (fun hmem => by rw [hx] at hmem; cases hfirst _ hmem) (by simp [hx])
    obtain rfl : entries = items.flatMap (c.entries t) := by
      rw [hx] at hput
      exact Store.Request.mset.inj hput
    -- the item with this key is of the type and has the id
    obtain ⟨⟨key, text⟩, hentry, rfl⟩ := List.mem_map.1 hkey
    obtain ⟨item, hitem, hentry⟩ := List.mem_flatMap.1 hentry
    rcases c.mem_entries.1 hentry with ⟨hattributes, heq, -⟩ | ⟨name, ids, -, heq, -⟩
    · obtain ⟨rfl, rfl⟩ := (c.attributesKey_inj htype ht).1 heq
      have henter : Store.Request.sadd (c.membersKey type)
          ((items.filter (!·.isBlank)).map (·.id)) ∈ (Program.inPlace i future).map (·.1) := by
        simp [hafter]
      obtain ⟨y, hy, hrequest⟩ := List.mem_map.1 henter
      refine ⟨y, Program.mem_inPlace.1 hy, _, hrequest, List.mem_map_of_mem ?_⟩
      exact List.mem_filter.2 ⟨hitem, by simp [Entity.isBlank, hattributes]⟩
    · exact absurd heq (c.attributesKey_ne_relationshipKey htype ht)

/-- An eviction that takes an id out of the members has deleted its attributes before. -/
theorem Complete.exists_deletes (h : c.Complete record) (htype : ValidType type)
    (hrecord : record = past ++ (i, x) :: future)
    (hleaves : c.Leaves type id x.1) : ∃ y, (i, y) ∈ past ∧ c.Deletes type id y.1 := by
  obtain ⟨hanswered, write, result, htakes⟩ := h i x (by simp [hrecord])
  obtain ⟨members, hx, hid⟩ := hleaves
  rw [hrecord, Program.inPlace_append, Program.inPlace_cons_self] at htakes hanswered
  -- a merge takes no id out, and an eviction deletes before it does
  cases write with
  | merge t items =>
    rcases c.requests_mergeAll htakes hanswered with hnil | ⟨-, first, hfirst, hrequests⟩
    · simp at hnil
    · have hmem : x.1 ∈ (Program.inPlace i past ++ x :: Program.inPlace i future).map (·.1) := by
        simp
      rw [hrequests, hx, List.mem_append] at hmem
      rcases hmem with hmem | hmem
      · cases hfirst _ hmem
      · simp at hmem
  | evict t ids =>
    rcases c.requests_evictAll htakes hanswered with hnil | ⟨ht, known, hrequests⟩
    · simp at hnil
    rw [List.map_append, List.map_cons] at hrequests
    obtain ⟨hbefore, hsrem, -⟩ := @eq_of_append_cons_eq _ _ _ [_, _] [] _ _ hrequests
      (by simp [hx]) List.not_mem_nil
    obtain ⟨hkeys, rfl⟩ : c.membersKey type = c.membersKey t ∧ members = distinct ids := by
      rw [hx] at hsrem
      exact Store.Request.srem.inj hsrem
    obtain rfl := (c.membersKey_inj htype ht).1 hkeys
    have hdelete : Store.Request.del ((distinct ids).flatMap fun id =>
        known.map (c.relationshipKey type id) ++ [c.attributesKey type id]) ∈
          (Program.inPlace i past).map (·.1) := by
      simp [hbefore]
    obtain ⟨y, hy, hrequest⟩ := List.mem_map.1 hdelete
    exact ⟨y, Program.mem_inPlace.1 hy, _, hrequest, List.mem_flatMap.2 ⟨id, hid, by simp⟩⟩

end Complete

/-! ## Overtaken evictions -/

variable (c) in
/-- Along the record an eviction of the id is overtaken: after it has deleted the attributes of the
id, and before it takes the id out of the members, a merge writes attributes and makes the id a
member.  From then on the attributes are not deleted, nor is the id made a member again. -/
inductive Overtaken (type id : String) : List (Nat × Exchange Store.Request.Reply) → Prop
  | intro {eviction merge : Nat} {deletion put entry leave : Exchange Store.Request.Reply}
    {first second third fourth last : List (Nat × Exchange Store.Request.Reply)}
    (hdeletes : c.Deletes type id deletion.1) (hputs : c.Puts type id put.1)
    (henters : c.Enters type id entry.1) (hleaves : c.Leaves type id leave.1)
    (hkept : ∀ x ∈ third ++ fourth ++ last, ¬c.Deletes type id x.2.1)
    (hgone : ∀ x ∈ last, ¬c.Enters type id x.2.1) :
    Overtaken type id (first ++ (eviction, deletion) :: (second ++ (merge, put) ::
      (third ++ (merge, entry) :: (fourth ++ (eviction, leave) :: last))))

section Overtaken

variable {record : List (Nat × Exchange Store.Request.Reply)}

/-- A request that deletes does nothing else. -/
theorem Deletes.alone (h : c.Deletes type id r) :
    ¬c.Puts type id r ∧ ¬c.Enters type id r ∧ ¬c.Leaves type id r := by
  obtain ⟨keys, rfl, -⟩ := h
  simp [Puts, Enters, Leaves]

/-- No request both enters an id and makes it leave. -/
theorem Leaves.not_enters (h : c.Leaves type id r) : ¬c.Enters type id r := by
  obtain ⟨ids, rfl, -⟩ := h
  rintro ⟨members, hmembers, -⟩
  cases hmembers

/-- Behind an overtaken eviction the attributes are there, and the id is not a member. -/
theorem Overtaken.turned (h : c.Overtaken type id record) :
    TurnedOn (fun x => c.Puts type id x.2.1) (fun x => c.Deletes type id x.2.1) record ∧
    ¬TurnedOn (fun x => c.Enters type id x.2.1) (fun x => c.Leaves type id x.2.1) record ∧
    ∃ x ∈ record, c.Leaves type id x.2.1 := by
  obtain @⟨eviction, merge, deletion, put, entry, leave, first, second, third, fourth, last,
    hdeletes, hputs, henters, hleaves, hkept, hgone⟩ := h
  refine ⟨⟨first ++ (eviction, deletion) :: second, (merge, put),
    third ++ (merge, entry) :: (fourth ++ (eviction, leave) :: last), by simp, hputs, ?_⟩, ?_,
    (eviction, leave), by simp, hleaves⟩
  -- a request that deletes neither enters nor leaves, so those in between do not take the text away
  · intro x hx
    simp only [List.mem_append, List.mem_cons] at hx hkept
    rcases hx with hx | rfl | hx | rfl | hx
    · exact hkept x (.inl (.inl hx))
    · exact fun hdeletes => hdeletes.alone.2.1 henters
    · exact hkept x (.inl (.inr hx))
    · exact fun hdeletes => hdeletes.alone.2.2 hleaves
    · exact hkept x (.inr hx)
  -- the eviction leaves after everything else, and nothing enters after it
  · have hsplit : first ++ (eviction, deletion) :: (second ++ (merge, put) ::
        (third ++ (merge, entry) :: (fourth ++ (eviction, leave) :: last))) =
        (first ++ (eviction, deletion) :: (second ++ (merge, put) ::
          (third ++ (merge, entry) :: fourth))) ++ (eviction, leave) :: last := by simp
    rw [hsplit]
    exact Store.not_turnedOn_of_off hleaves hleaves.not_enters hgone

/-- Where writes have ended and left the attributes of an id that is not a member, one of them has
been overtaken. -/
theorem Complete.overtaken (h : c.Complete record) (htype : ValidType type)
    (hthere : TurnedOn (fun x => c.Puts type id x.2.1) (fun x => c.Deletes type id x.2.1) record)
    (hout : ¬TurnedOn (fun x => c.Enters type id x.2.1) (fun x => c.Leaves type id x.2.1) record) :
    c.Overtaken type id record := by
  obtain ⟨past, ⟨merge, put⟩, future, rfl, hputs, hkept⟩ := hthere
  obtain ⟨entry, hentry, henters⟩ := h.exists_enters htype rfl hputs
  obtain ⟨third, later, rfl⟩ := List.append_of_mem hentry
  -- the id is made a member for the last time, and taken out after that
  have hentered : ∃ x ∈ (merge, entry) :: later, c.Enters type id x.2.1 :=
    ⟨_, List.mem_cons_self, henters⟩
  obtain ⟨before, last, rest, hsplit, hlast, hrest⟩ := Store.turnedOn_self hentered
  have hleft : ∃ x ∈ rest, c.Leaves type id x.2.1 := by
    by_contra hnone
    exact hout ⟨past ++ (merge, put) :: (third ++ before), last, rest, by simp [hsplit], hlast,
      fun x hx hx' => hnone ⟨x, hx, hx'⟩⟩
  obtain ⟨⟨eviction, leave⟩, hleave, hleaves⟩ := hleft
  obtain ⟨between, rest, rfl⟩ := List.append_of_mem hleave
  obtain ⟨fourth, rfl⟩ : ∃ fourth, later = fourth ++ (eviction, leave) :: rest := by
    cases before with
    | nil => exact ⟨between, (List.cons.inj hsplit).2⟩
    | cons _ before => exact ⟨before ++ last :: between, by simpa using (List.cons.inj hsplit).2⟩
  -- the eviction has deleted the attributes before they have been written
  have hrecord : past ++ (merge, put) :: (third ++ (merge, entry) ::
      (fourth ++ (eviction, leave) :: rest)) =
      (past ++ (merge, put) :: (third ++ (merge, entry) :: fourth)) ++
        (eviction, leave) :: rest := by
    simp
  obtain ⟨deletion, hdeletion, hdeletes⟩ := h.exists_deletes htype hrecord hleaves
  have hpast : (eviction, deletion) ∈ past := by
    simp only [List.mem_append, List.mem_cons] at hdeletion hkept
    rcases hdeletion with hmem | heq | hmem | heq | hmem
    · exact hmem
    · cases heq
      exact absurd hputs hdeletes.alone.1
    · exact absurd hdeletes (hkept _ (.inl hmem))
    · cases heq
      exact absurd henters hdeletes.alone.2.1
    · exact absurd hdeletes (hkept _ (.inr (.inr (.inl hmem))))
  obtain ⟨first, second, rfl⟩ := List.append_of_mem hpast
  rw [List.append_assoc, List.cons_append]
  refine .intro hdeletes hputs henters hleaves (fun x hx => hkept x ?_)
    fun x hx => hrest x (by simp [hx])
  simp only [List.mem_append, List.mem_cons] at hx ⊢
  tauto

end Overtaken

/-! ## What is read of a store -/

section Reading

variable {running : List (Calls (Except DomainError Unit))} {names : Set String} {b : Backing}
  {m : Store.Memory}

/-- A write adds something whenever it adds to a set. -/
theorem adds_perform (write : Write) : (write.perform c.writer).run.Asks Store.Request.Adds := by
  cases write with
  | merge type items => exact adds_mergeAll type items
  | evict type ids => exact adds_evictAll type ids

/-- A store that writes have reached cannot be told from one in memory. -/
theorem Reached.twin (h : c.Reached names running b) :
    (∃ m, b.Twin m) ∧ ∀ p ∈ running, p.Asks Store.Request.Adds := by
  -- each way to reach a store serves one request in its twin too, or none
  induction h with
  | fresh h => exact ⟨⟨_, h.twin⟩, List.forall_mem_nil _⟩
  | begin write _ _ ih => exact ⟨ih.1, List.forall_mem_cons.2 ⟨adds_perform write, ih.2⟩⟩
  | @serve before after r next b _ ih =>
    obtain ⟨⟨m, htwin⟩, hrunning⟩ := ih
    obtain ⟨hbefore, hrest⟩ := List.forall_mem_append.1 hrunning
    obtain ⟨⟨hr, hnext⟩, hafter⟩ := List.forall_mem_cons.1 hrest
    refine ⟨⟨_, (htwin.serve hr).2⟩, ?_⟩
    exact List.forall_mem_append.2 ⟨hbefore, List.forall_mem_cons.2 ⟨hnext _, hafter⟩⟩
  | fail e _ ih =>
    obtain ⟨htwin, hrunning⟩ := ih
    obtain ⟨hbefore, hrest⟩ := List.forall_mem_append.1 hrunning
    obtain ⟨⟨-, hnext⟩, hafter⟩ := List.forall_mem_cons.1 hrest
    exact ⟨htwin, List.forall_mem_append.2 ⟨hbefore, List.forall_mem_cons.2 ⟨hnext _, hafter⟩⟩⟩
  | abandon _ ih =>
    obtain ⟨htwin, hrunning⟩ := ih
    obtain ⟨hbefore, hrest⟩ := List.forall_mem_append.1 hrunning
    exact ⟨htwin, List.forall_mem_append.2 ⟨hbefore, (List.forall_mem_cons.1 hrest).2⟩⟩

/-- An entity that is stored has the id it is stored under, and its attributes are there. -/
theorem stored_cases (m : Store.Memory) (type id : String) :
    m.strings[c.attributesKey type id]? = none ∧ c.stored m type id = .ok none ∨
    m.strings[c.attributesKey type id]? ≠ none ∧ c.stored m type id ≠ .ok none ∧
      ∀ e, c.stored m type id = .ok (some e) → e.id = id := by
  rw [stored, entityKeys, List.map_cons]
  -- without a text there is nothing; with one there is an entity or a failure
  cases m.strings[c.attributesKey type id]? with
  | none => exact .inl ⟨rfl, rfl⟩
  | some text =>
    refine .inr ⟨by simp, ?_⟩
    rw [decodeEntity]
    cases Attributes.decode? text with
    | none => simp
    | some attributes =>
      simp only
      generalize decodeRelationships _ _ = named
      cases named with
      | error e => simp [Except.map]
      | ok named =>
        refine ⟨by simp [Except.map], ?_⟩
        rintro e ⟨⟩
        rfl

section Twins

variable (htwin : b.Twin m) (htype : ValidType type)

include htwin htype

/-- A store and its twin in memory answer `get` alike. -/
theorem get_of_twin (id : String) :
    (Action.on Backing.serve (c.reader.get type id) b).1 = c.stored m type id :=
  (htwin.run (adds_get type id)).1.trans (congrArg Prod.fst (c.on_get htype id m))

/-- An id reads as absent if it has no attributes. -/
theorem get_eq_none_iff : (Action.on Backing.serve (c.reader.get type id) b).1 = .ok none ↔
    b.content.strings (c.attributesKey type id) = none := by
  rw [get_of_twin htwin htype, htwin.content_eq]
  show _ ↔ m.strings[c.attributesKey type id]? = none
  rcases stored_cases m type id with ⟨hnone, hstored⟩ | ⟨hsome, hstored, -⟩
  · exact iff_of_true hstored hnone
  · exact iff_of_false hstored hsome

/-- A listing that is not refused has the entities of the members. -/
theorem exists_getAll (h : ∀ id, ∃ found,
      (Action.on Backing.serve (c.reader.get type id) b).1 = .ok found) :
    ∃ entities, (Action.on Backing.serve (c.reader.getAll type) b).1 = .ok entities ∧
      ∀ id e, (Action.on Backing.serve (c.reader.get type id) b).1 = .ok (some e) →
        (e ∈ entities ↔ id ∈ b.content.sets (c.membersKey type)) := by
  simp only [get_of_twin htwin htype] at h ⊢
  choose found hfound using h
  refine ⟨(m.members (c.membersKey type)).filterMap found, ?_, fun id e he => ?_⟩
  · have hrun := (htwin.run (adds_getAll (c := c) type)).1
    have hall : (Action.on Backing.serve (c.reader.getAll type) b).1 =
        (Action.on Store.Memory.serve (c.getAll type) m).1 := hrun
    rw [hall, c.on_getAll htype]
    exact readEach_ok fun id _ => hfound id
  -- an entity is found under its own id, so it is listed for no other
  · have hkeyed {id : String} (he : c.stored m type id = .ok (some e)) : e.id = id := by
      rcases stored_cases m type id with ⟨-, hnone⟩ | ⟨-, -, hid⟩
      · cases hnone.symm.trans he
      · exact hid e he
    rw [htwin.content_eq, List.mem_filterMap]
    constructor
    · rintro ⟨other, hmember, hother⟩
      have hsame := hkeyed ((hfound other).trans (congrArg _ hother))
      rw [hkeyed he] at hsame
      subst hsame
      exact Store.Memory.mem_members.1 hmember
    · intro hmember
      exact ⟨id, Store.Memory.mem_members.2 hmember, Except.ok.inj ((hfound id).symm.trans he)⟩

end Twins

end Reading

/-! ## What is there is listed -/

variable (c) in
/-- Of the ids of a type that do not read as absent, those that are listed are the ones that are not
hidden, and a listing that is not refused has their entities. -/
structure ListsReadable (b : Backing) (type : String) (hidden : String → Prop) : Prop where
  listed : ∀ id, (Action.on Backing.serve (c.reader.get type id) b).1 ≠ .ok none →
    ((∃ ids, (Action.on Backing.serve (c.reader.getIdentifiers type) b).1 = .ok ids ∧ id ∈ ids) ↔
      ¬hidden id)
  there : ∀ id, hidden id → (Action.on Backing.serve (c.reader.get type id) b).1 ≠ .ok none
  all : (∀ id, ∃ found, (Action.on Backing.serve (c.reader.get type id) b).1 = .ok found) →
    ∃ entities, (Action.on Backing.serve (c.reader.getAll type) b).1 = .ok entities ∧
      ∀ id e, (Action.on Backing.serve (c.reader.get type id) b).1 = .ok (some e) →
        (e ∈ entities ↔ ¬hidden id)

variable (c) in
/-- An id is hidden behind a record of writes: along the record an eviction of it is overtaken, or
it has not been listed before although it has been there, and no request on the record deletes its
attributes or makes it a member. -/
inductive Hidden (type : String) (before : Backing)
    (record : List (Nat × Exchange Store.Request.Reply)) (id : String) : Prop
  | overtaken (h : c.Overtaken type id record)
  | kept (hthere : (Action.on Backing.serve (c.reader.get type id) before).1 ≠ .ok none)
    (hunlisted : ∀ ids,
      (Action.on Backing.serve (c.reader.getIdentifiers type) before).1 = .ok ids → id ∉ ids)
    (hkept : ∀ x ∈ record, ¬c.Deletes type id x.2.1 ∧ ¬c.Enters type id x.2.1)

section Runs

variable {names : Set String} {running : List (Calls (Except DomainError Unit))}
  {before : Backing} {writes : List Write} {turns : List Nat}

variable (c) in
/-- Writes as store calls. -/
def writeCalls (writes : List Write) : List (Calls (Except DomainError Unit)) :=
  writes.map fun write => (write.perform c.writer).run

variable (c) in
/-- The record of writes that take turns on a store. -/
def writeRecord (turns : List Nat) (writes : List Write) (before : Backing) :
    List (Nat × Exchange Store.Request.Reply) :=
  Program.record Backing.serve turns (c.writeCalls writes) before

/-- What writes leave on record that have all ended. -/
theorem complete_writeRecord (hready : before.Ready)
    (hended : ∀ p ∈ (Program.interleave Backing.serve turns (c.writeCalls writes) before).1,
      p.value?.isSome) : c.Complete (c.writeRecord turns writes before) := by
  intro i x hx
  obtain ⟨p, hp⟩ := Program.exists_getElem?_of_record _ hx
  obtain ⟨p', hp', htakes⟩ := Program.takes_record Backing.serve (s := before) turns hp
  obtain ⟨write, -, rfl⟩ := List.mem_map.1 (List.mem_of_getElem? hp)
  obtain ⟨result, hresult⟩ := Option.isSome_iff_exists.1 (hended p' (List.mem_of_getElem? hp'))
  obtain rfl := Program.value?_eq_some.1 hresult
  refine ⟨fun y hy => ?_, write, result, htakes⟩
  exact Backing.attends.answered hready _ (Program.mem_inPlace.1 hy)

/-- What the record says about the attributes of an id holds at the end. -/
theorem Complete.isSome_attributes {record : List (Nat × Exchange Store.Request.Reply)}
    (h : c.Complete record) (held : Content) :
    ((held.carryOut (record.map (·.2.1))).strings (c.attributesKey type id)).isSome ↔
      TurnedOn (fun x => c.Puts type id x.2.1) (fun x => c.Deletes type id x.2.1) record ∨
      (held.strings (c.attributesKey type id)).isSome ∧ ∀ x ∈ record, ¬c.Deletes type id x.2.1 := by
  refine Content.carryOut_iff (S := fun held => (held.strings (c.attributesKey type id)).isSome)
    (fun x hx held => ?_) held
  obtain ⟨t, -, hmakes⟩ := h.makes hx
  exact hmakes.isSome_attributes held

/-- What the record says about the membership of an id holds at the end. -/
theorem Complete.mem_members {record : List (Nat × Exchange Store.Request.Reply)}
    (h : c.Complete record) (htype : ValidType type) (held : Content) :
    id ∈ (held.carryOut (record.map (·.2.1))).sets (c.membersKey type) ↔
      TurnedOn (fun x => c.Enters type id x.2.1) (fun x => c.Leaves type id x.2.1) record ∨
      id ∈ held.sets (c.membersKey type) ∧ ∀ x ∈ record, ¬c.Leaves type id x.2.1 := by
  refine Content.carryOut_iff (S := fun held => id ∈ held.sets (c.membersKey type))
    (fun x hx held => ?_) held
  obtain ⟨t, ht, hmakes⟩ := h.makes hx
  exact hmakes.mem_members htype ht held

/-- What is there at the end is listed unless an eviction has been overtaken, or it has been there
and not listed and the record has not changed that. -/
theorem Complete.listed_iff {record : List (Nat × Exchange Store.Request.Reply)}
    (h : c.Complete record) (htype : ValidType type) (held : Content) {hidden : Prop}
    (hhidden : hidden ↔ c.Overtaken type id record ∨
      (held.strings (c.attributesKey type id)).isSome ∧ id ∉ held.sets (c.membersKey type) ∧
        ∀ x ∈ record, ¬c.Deletes type id x.2.1 ∧ ¬c.Enters type id x.2.1) :
    (hidden → ((held.carryOut (record.map (·.2.1))).strings (c.attributesKey type id)).isSome) ∧
    (((held.carryOut (record.map (·.2.1))).strings (c.attributesKey type id)).isSome →
      (id ∈ (held.carryOut (record.map (·.2.1))).sets (c.membersKey type) ↔ ¬hidden)) := by
  rw [h.isSome_attributes, h.mem_members htype, hhidden]
  refine ⟨?_, fun hthere => ⟨?_, fun hnot => ?_⟩⟩
  · rintro (hovertaken | ⟨hbefore, -, hkept⟩)
    · exact .inl hovertaken.turned.1
    · exact .inr ⟨hbefore, fun x hx => (hkept x hx).1⟩
  · rintro hmember (hovertaken | ⟨-, hout, hkept⟩)
    · obtain ⟨-, hout, x, hx, hleaves⟩ := hovertaken.turned
      rcases hmember with hin | ⟨-, hnone⟩
      · exact hout hin
      · exact hnone x hx hleaves
    · rcases hmember with hin | ⟨hin, -⟩
      · obtain ⟨x, hx, henters⟩ := hin.exists_mem
        exact (hkept x hx).2 henters
      · exact hout hin
  · obtain ⟨hnever, hkept⟩ := not_or.1 hnot
    rcases hthere with hput | ⟨hbefore, hdeletes⟩
    · exact .inl (by_contra fun hout => hnever (h.overtaken htype hput hout))
    -- whoever takes the id out has deleted its attributes before
    have hleaves : ∀ x ∈ record, ¬c.Leaves type id x.2.1 := by
      intro x hx hleaves
      obtain ⟨past, future, hrecord⟩ := List.append_of_mem hx
      obtain ⟨y, hy, hy'⟩ := h.exists_deletes (i := x.1) (x := x.2) htype hrecord hleaves
      exact hdeletes (x.1, y) (by simp [hrecord, hy]) hy'
    by_cases hin : id ∈ held.sets (c.membersKey type)
    · exact .inr ⟨hin, hleaves⟩
    · have henters : ∃ x ∈ record, c.Enters type id x.2.1 := by
        by_contra hnone
        refine hkept ⟨hbefore, hin, fun x hx => ⟨hdeletes x hx, fun henters => ?_⟩⟩
        exact hnone ⟨x, hx, henters⟩
      obtain ⟨first, x, rest, rfl, hx, -⟩ := Store.turnedOn_self henters
      exact .inl ⟨first, x, rest, rfl, hx, fun y hy => hleaves y (by simp [hy])⟩

/-- Whether an id is hidden, in terms of what the store has held. -/
theorem hidden_iff {m : Store.Memory} (htwin : before.Twin m) (htype : ValidType type)
    {record : List (Nat × Exchange Store.Request.Reply)} :
    c.Hidden type before record id ↔ c.Overtaken type id record ∨
      (before.content.strings (c.attributesKey type id)).isSome ∧
        id ∉ before.content.sets (c.membersKey type) ∧
        ∀ x ∈ record, ¬c.Deletes type id x.2.1 ∧ ¬c.Enters type id x.2.1 := by
  have hthere : (Action.on Backing.serve (c.reader.get type id) before).1 ≠ .ok none ↔
      (before.content.strings (c.attributesKey type id)).isSome := by
    rw [ne_eq, get_eq_none_iff htwin htype, Option.isSome_iff_ne_none]
  have hlisted : (∀ ids,
      (Action.on Backing.serve (c.reader.getIdentifiers type) before).1 = .ok ids → id ∉ ids) ↔
        id ∉ before.content.sets (c.membersKey type) := by
    simp [getIdentifiers_of_twin htwin htype]
  rw [← hthere, ← hlisted]
  constructor
  · rintro (hovertaken | ⟨hthere, hunlisted, hkept⟩)
    · exact .inl hovertaken
    · exact .inr ⟨hthere, hunlisted, hkept⟩
  · rintro (hovertaken | ⟨hthere, hunlisted, hkept⟩)
    · exact .overtaken hovertaken
    · exact .kept hthere hunlisted hkept

/-- Writes run side by side on a store that writes have reached.  Whatever turns they take, they can
all come to their ends, and once they have, everything that is there is listed but for the ids that
are hidden. -/
theorem listsReadable_of_interleave (hreached : c.Reached Set.univ running before)
    (htype : ValidType type) (writes : List Write) (turns : List Nat) :
    (∃ more,
      ∀ p ∈ (Program.interleave Backing.serve (turns ++ more) (c.writeCalls writes) before).1,
        p.value?.isSome) ∧
    ((∀ p ∈ (Program.interleave Backing.serve turns (c.writeCalls writes) before).1,
        p.value?.isSome) →
      c.ListsReadable (Program.interleave Backing.serve turns (c.writeCalls writes) before).2 type
        (c.Hidden type before (c.writeRecord turns writes before))) := by
  constructor
  · exact Program.exists_ended_append Backing.serve turns _ before
  · intro hended
    obtain ⟨m, htwin⟩ := hreached.twin.1
    have hnamed : ∀ write ∈ writes, write.Named Set.univ := fun write _ => by
      cases write <;> simp [Write.Named]
    obtain ⟨m', htwin'⟩ : ∃ m',
        (Program.interleave Backing.serve turns (c.writeCalls writes) before).2.Twin m' :=
      ((hreached.abandonAll.beginAll hnamed).interleave turns).twin.1
    have hcontent :
        (Program.interleave Backing.serve turns (c.writeCalls writes) before).2.content =
          before.content.carryOut ((c.writeRecord turns writes before).map (·.2.1)) := by
      rw [Program.interleave_snd]
      exact (Backing.attends.content_after htwin.ready _).2
    have hlisted (id : String) := (complete_writeRecord htwin.ready hended).listed_iff htype
      before.content (@hidden_iff c type id before m htwin htype _)
    generalize (Program.interleave Backing.serve turns (c.writeCalls writes) before).2 = after
      at htwin' hcontent
    -- what is read of the store, in terms of what it holds
    simp only [← hcontent, Option.isSome_iff_ne_none] at hlisted
    refine ⟨fun id hthere => ?_, fun id hhidden => ?_, fun hread => ?_⟩
    · rw [ne_eq, get_eq_none_iff htwin' htype] at hthere
      simp only [getIdentifiers_of_twin htwin' htype, Except.ok.injEq, exists_eq_left',
        Std.ExtTreeSet.mem_toList]
      exact (hlisted id).2 hthere
    · rw [ne_eq, get_eq_none_iff htwin' htype]
      exact (hlisted id).1 hhidden
    · obtain ⟨entities, hall, hmem⟩ := exists_getAll htwin' htype hread
      refine ⟨entities, hall, fun id e he => (hmem id e he).trans ((hlisted id).2 ?_)⟩
      rw [ne_eq, ← get_eq_none_iff htwin' htype, he]
      simp

end Runs

/-! ## Two writes in two orders -/

/-- An eviction of an id, and a merge of an item with this id. -/
def evictAndMerge : List Write :=
  [.evict "type" ["i"],
    .merge "type" [(({ id := "i" } : Entity).withAttribute "x" (.bool true)).listed]]

/-- The two take turns, and the eviction takes the id out before the merge makes it a member.  So
the item can be read, is listed and is not hidden. -/
theorem listsReadable_of_interleave_evictAndMerge :
    (mk "fleetcache").Reached Set.univ [] (.memory {}) ∧ ValidType "type" ∧
      (∀ p ∈ (Program.interleave Backing.serve [0, 0, 1, 0, 1]
        ((mk "fleetcache").writeCalls evictAndMerge) (.memory {})).1, p.value?.isSome) ∧
      (mk "fleetcache").ListsReadable (Program.interleave Backing.serve [0, 0, 1, 0, 1]
        ((mk "fleetcache").writeCalls evictAndMerge) (.memory {})).2 "type"
        ((mk "fleetcache").Hidden "type" (.memory {})
          ((mk "fleetcache").writeRecord [0, 0, 1, 0, 1] evictAndMerge (.memory {}))) ∧
      ¬(mk "fleetcache").Hidden "type" (.memory {})
        ((mk "fleetcache").writeRecord [0, 0, 1, 0, 1] evictAndMerge (.memory {})) "i" := by
  have hempty : (mk "fleetcache").Reached Set.univ [] (.memory {}) := .fresh (.inl rfl)
  have htype : ValidType "type" := by decide
  have hended : ∀ p ∈ (Program.interleave Backing.serve [0, 0, 1, 0, 1]
      ((mk "fleetcache").writeCalls evictAndMerge) (.memory {})).1, p.value?.isSome := by
    decide +kernel
  have hlists := (listsReadable_of_interleave hempty htype evictAndMerge [0, 0, 1, 0, 1]).2 hended
  have hlisted : (Action.on Backing.serve ((mk "fleetcache").reader.getIdentifiers "type")
      (Program.interleave Backing.serve [0, 0, 1, 0, 1]
        ((mk "fleetcache").writeCalls evictAndMerge) (.memory {})).2).1 = .ok ["i"] := by
    decide +kernel
  exact ⟨hempty, htype, hended, hlists,
    (hlists.listed "i" (by decide +kernel)).1 ⟨["i"], hlisted, List.mem_cons_self⟩⟩

/-- What can be read is not always listed: if the eviction is overtaken, the item is there and not
listed, and no listing has it until it is merged again. -/
theorem not_always_listed : ¬∀ (writes : List Write) (turns : List Nat),
    (∀ p ∈ (Program.interleave Backing.serve turns ((mk "fleetcache").writeCalls writes)
      (.memory {})).1, p.value? = some (.ok ())) →
    ∀ id e, (Action.on Backing.serve ((mk "fleetcache").reader.get "type" id)
        (Program.interleave Backing.serve turns ((mk "fleetcache").writeCalls writes)
          (.memory {})).2).1 = .ok (some e) →
      ∃ ids, (Action.on Backing.serve ((mk "fleetcache").reader.getIdentifiers "type")
        (Program.interleave Backing.serve turns ((mk "fleetcache").writeCalls writes)
          (.memory {})).2).1 = .ok ids ∧ id ∈ ids := by
  intro h
  obtain ⟨ids, hids, hmem⟩ := h evictAndMerge [0, 0, 1, 1, 0] (by decide +kernel) "i"
    (({ id := "i" } : Entity).withAttribute "x" (.bool true)) (by decide +kernel)
  have hnone : (Action.on Backing.serve ((mk "fleetcache").reader.getIdentifiers "type")
      (Program.interleave Backing.serve [0, 0, 1, 1, 0]
        ((mk "fleetcache").writeCalls evictAndMerge) (.memory {})).2).1 = .ok [] := by
    decide +kernel
  rw [hnone] at hids
  cases hids
  cases hmem

end KeyValueCache

end EntityCache
