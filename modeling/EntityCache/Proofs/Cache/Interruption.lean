import EntityCache.Proofs.Cache.Readability
import EntityCache.Proofs.Store.Failures

/-!
# Writes that stop because a request fails

A write makes its requests one after another and stops at the first one that fails.  What is left
then is what the requests before it have made of the store (`perform_error`).  The order of the
requests makes this safe: a merge adds to the index before it writes a string, and to the members
last; an eviction reads the index, removes the keys, and takes the members out last.  It can also be
made good, since requests may be carried out again: once the same write has been made again and has
succeeded, the store holds what it would have held if nothing had failed
(`interrupted_write`).
-/

namespace EntityCache

open Store (Attends Content Observed Backing)

namespace Write

/-- The requests of a write to a store that holds `held`.  Where nothing is to be written a write
leaves requests out; those that stand here in their place change nothing. -/
def requests (c : KeyValueCache) (held : Content) : Write → List Store.Request
  | merge type items =>
    [.sadd (c.indexKey type) (KeyValueCache.relationshipNames items),
      .mset (items.flatMap (c.entries type)),
      .sadd (c.membersKey type) ((items.filter (!·.isBlank)).map (·.id))]
  | evict type ids =>
    [.smembers (c.indexKey type),
      .del ((distinct ids).flatMap fun id =>
        (held.sets (c.indexKey type)).toList.map (c.relationshipKey type id) ++
          [c.attributesKey type id]),
      .srem (c.membersKey type) (distinct ids)]

end Write

namespace KeyValueCache

/-! ## Actions that carry requests out -/

section Performs

variable {σ : Type} {faulty : Prop} {serve : (r : Store.Request) → σ → r.Reply × σ}
  {content : σ → Content} {ready : σ → Prop} {s : σ} {r : Store.Request}
  {rest : List Store.Request} {a : Action Unit}

/-- All requests have been carried out, or one has failed and only those before it have been. -/
inductive Ending (faulty : Prop) (rs : List Store.Request) (before : Content) :
    Except DomainError Unit → Content → Prop
  | whole : Ending faulty rs before (.ok ()) (before.carryOut rs)
  | part (h : faulty) {n : Nat} (hn : n < rs.length) (e : DomainError) :
    Ending faulty rs before (.error e) (before.carryOut (rs.take n))

/-- A request that has been carried out comes before those that follow it. -/
theorem Ending.cons {before after : Content} {result : Except DomainError Unit}
    (h : Ending faulty rest (before.answer r).2 result after) :
    Ending faulty (r :: rest) before result after := by
  cases h with
  | whole => exact (Ending.whole : Ending faulty (r :: rest) before (.ok ()) _)
  | part hfaulty hn e =>
    exact (Ending.part hfaulty (Nat.succ_lt_succ hn) e : Ending faulty (r :: rest) before _ _)

variable (faulty serve content ready) in
/-- On a store an action does what requests do one after another. -/
structure Performs (a : Action Unit) (rs : List Store.Request) (s : σ) : Prop where
  ready : ready (Action.on serve a s).2
  ending : Ending faulty rs (content s) (Action.on serve a s).1 (content (Action.on serve a s).2)

/-- An operation that is over has no requests to make. -/
theorem Performs.done (hs : ready s) : Performs faulty serve content ready (pure ()) [] s where
  ready := hs
  ending := .whole

/-- A request that would change nothing need not be made. -/
theorem Performs.skip (hr : ((content s).answer r).2 = content s)
    (h : Performs faulty serve content ready a rest s) :
    Performs faulty serve content ready a (r :: rest) s where
  ready := h.ready
  ending := .cons (by rw [hr]; exact h.ending)

/-- A request is made, and where it has been carried out the action goes on from there. -/
theorem Performs.ask {next : r.Reply → Store.Calls (Except DomainError Unit)}
    (hattends : Attends faulty serve content ready) (hs : ready s)
    (hstop : ∀ e, ∃ e', next (.error e) = .done (.error e'))
    (h : ∀ a s', (r.Exact → a = ((content s).answer r).1) → ready s' →
      content s' = ((content s).answer r).2 →
      Performs faulty serve content ready (ExceptT.mk (next (.ok a))) rest s') :
    Performs faulty serve content ready (ExceptT.mk (.ask r next)) (r :: rest) s := by
  have hready := hattends.ready r s hs
  have houtcome := hattends.outcome r s hs
  have hon : Action.on serve (ExceptT.mk (.ask r next)) s =
      Action.on serve (ExceptT.mk (next (serve r s).1)) (serve r s).2 := rfl
  generalize (serve r s).1 = reply, (serve r s).2 = s' at hready houtcome hon
  generalize hafter : content s' = after at houtcome
  -- the store fails and the request is not carried out, or it answers
  cases houtcome with
  | failed hfaulty e =>
    obtain ⟨e', he'⟩ := hstop e
    have herror : Action.on serve (ExceptT.mk (.ask r next)) s = (.error e', s') := by
      rw [hon, he']
      rfl
    refine ⟨by rwa [herror], ?_⟩
    rw [herror, hafter]
    exact (Ending.part hfaulty (Nat.zero_lt_succ _) _ : Ending faulty (r :: rest) (content s) _ _)
  | answered a hexact =>
    have hrest := h a s' hexact hready hafter
    refine ⟨by rw [hon]; exact hrest.ready, .cons ?_⟩
    rw [hon, ← hafter]
    exact hrest.ending

/-- A request comes first; the others follow on whatever store it leaves, with an exact answer where
the request has one. -/
theorem Performs.call {f : r.Answer → Action Unit}
    (hattends : Attends faulty serve content ready) (hs : ready s)
    (h : ∀ a s', (r.Exact → a = ((content s).answer r).1) → ready s' →
      content s' = ((content s).answer r).2 → Performs faulty serve content ready (f a) rest s') :
    Performs faulty serve content ready (KeyValueCache.call r >>= f) (r :: rest) s :=
  .ask hattends hs (fun e => ⟨DomainError.ofStoreError e, rfl⟩) h

/-- A program that carries requests out does on a store what they do. -/
theorem Performs.of_carriesOut {rs : List Store.Request}
    {p : Store.Calls (Except DomainError Unit)} (h : Store.CarriesOut rs p)
    (hattends : Attends faulty serve content ready) (hs : ready s) :
    Performs faulty serve content ready (ExceptT.mk p) rs s := by
  induction h generalizing s with
  | done => exact .done hs
  | skip hr _ ih => exact .skip (hr (content s)) (ih hs)
  | ask _ hstop ih => exact .ask hattends hs hstop fun a s' _ hs' _ => ih a hs'

/-- A valid type costs no request. -/
theorem Performs.validate {type : String} (htype : ValidType type) {f : Unit → Action Unit}
    {rs : List Store.Request} (h : Performs faulty serve content ready (f ()) rs s) :
    Performs faulty serve content ready (KeyValueCache.validate type >>= f) rs s := by
  have hon := Action.on_bind_ok serve f (on_validate serve htype s)
  exact ⟨by rw [hon]; exact h.ready, by rw [hon]; exact h.ending⟩

end Performs

/-! ## Writes as requests -/

variable (c : KeyValueCache)

section Writes

variable {σ : Type} {faulty : Prop} {serve : (r : Store.Request) → σ → r.Reply × σ}
  {content : σ → Content} {ready : σ → Prop} {s : σ} {type : String}

/-- Adding nothing to a set changes nothing. -/
theorem answer_sadd_nil (key : String) (held : Content) :
    (held.answer (.sadd key [])).2 = held :=
  congrArg Prod.snd ((Content.sequential_add key).nil held)

/-- A request of an action is carried out first; what the action does with the answer is left. -/
theorem carriesOut_call {r : Store.Request} {rest : List Store.Request}
    {f : r.Answer → Action Unit} (h : ∀ a, Store.CarriesOut rest (f a).run) :
    Store.CarriesOut (r :: rest) (call r >>= f).run :=
  .ask h fun e => ⟨DomainError.ofStoreError e, rfl⟩

/-- A merge of a valid type carries its requests out. -/
theorem carriesOut_mergeAll (htype : ValidType type) (items : List Item) (held : Content) :
    Store.CarriesOut ((Write.merge type items).requests c held) (c.mergeAll type items).run := by
  rw [mergeAll, Write.requests, validate, if_pos htype]
  show Store.CarriesOut _ (ExceptT.run (if _ then _ else _))
  by_cases hempty : (items.filter (!·.isBlank)).isEmpty
  · rw [if_pos hempty]
    rw [List.isEmpty_iff] at hempty
    have hblank : ∀ item ∈ items, item.isBlank = true := by
      simpa [List.filter_eq_nil_iff] using hempty
    obtain ⟨hnames, hentries⟩ := c.nothing_of_blank type hblank
    rw [hnames, hentries, hempty]
    exact .skip (answer_sadd_nil _) (.skip (fun _ => rfl) (.skip (answer_sadd_nil _) .done))
  rw [if_neg hempty]
  -- the strings and the members are written in the same way whether or not there is a name
  have htail : Store.CarriesOut [.mset (items.flatMap (c.entries type)),
        .sadd (c.membersKey type) ((items.filter (!·.isBlank)).map (·.id))] (ExceptT.run do
      call (.mset (items.flatMap (c.entries type)))
      let _ ← call (.sadd (c.membersKey type) ((items.filter (!·.isBlank)).map (·.id)))) :=
    carriesOut_call fun _ => carriesOut_call fun _ => .done
  by_cases hnames : (relationshipNames items).isEmpty
  · have hno : (!(relationshipNames items).isEmpty) = true ↔ False := by simp [hnames]
    simp only [hno, if_false]
    rw [List.isEmpty_iff.1 hnames]
    exact .skip (answer_sadd_nil _) htail
  · have hyes : (!(relationshipNames items).isEmpty) = true ↔ True := by simp [hnames]
    simp only [hyes, if_true]
    exact carriesOut_call fun _ => htail

/-- A merge makes the requests of its write, one after another, or stops at a failure. -/
theorem performs_mergeAll (hattends : Attends faulty serve content ready) (hs : ready s)
    (htype : ValidType type) (items : List Item) :
    Performs faulty serve content ready (c.mergeAll type items)
      ((Write.merge type items).requests c (content s)) s :=
  .of_carriesOut (c.carriesOut_mergeAll htype items (content s)) hattends hs

/-- An eviction makes the requests of its write, one after another, or stops at a failure. -/
theorem performs_evictAll (hattends : Attends faulty serve content ready) (hs : ready s)
    (htype : ValidType type) (ids : List String) :
    Performs faulty serve content ready (c.evictAll type ids)
      ((Write.evict type ids).requests c (content s)) s := by
  rw [evictAll, Write.requests]
  apply Performs.validate htype
  by_cases hempty : (distinct ids).isEmpty
  · rw [if_pos hempty, List.isEmpty_iff.1 hempty]
    have hdel := (Content.sequential_remove).nil (content s)
    have hsrem := (Content.sequential_takeOut (c.membersKey type)).nil (content s)
    exact .skip rfl (.skip (congrArg Prod.snd hdel) (.skip (congrArg Prod.snd hsrem) (.done hs)))
  rw [if_neg hempty]
  apply Performs.call hattends hs
  -- the keys that are removed are those of the names that the index has been read to have
  rintro known s₁ hknown hs₁ -
  rw [hknown trivial]
  exact .call hattends hs₁ fun _ _ _ hs₂ _ => .call hattends hs₂ fun _ _ _ hs₃ _ => .done hs₃

/-- A write of a valid type does what its requests do. -/
theorem performs_write (hattends : Attends faulty serve content ready) (hs : ready s)
    {write : Write} (htype : ValidType write.type) :
    Performs faulty serve content ready (write.perform c.writer)
      (write.requests c (content s)) s := by
  cases write with
  | merge type items => exact c.performs_mergeAll hattends hs htype items
  | evict type ids => exact c.performs_evictAll hattends hs htype ids

end Writes

/-! ## After some of the requests -/

/-- The key is that of a relationship with a name of the index. -/
def InIndex (held : Content) (type key : String) : Prop :=
  ∃ id, ∃ name ∈ held.sets (c.indexKey type), key = c.relationshipKey type id name

/-- The index has lost no name, and every relationship string that is there has its name in the
index, unless it was there before and had not. -/
structure KeepsIndex (type : String) (before after : Content) : Prop where
  names : ∀ name ∈ before.sets (c.indexKey type), name ∈ after.sets (c.indexKey type)
  indexed : ∀ id name,
    ((before.strings (c.relationshipKey type id name)).isSome →
      c.InIndex before type (c.relationshipKey type id name)) →
    (after.strings (c.relationshipKey type id name)).isSome →
      c.InIndex after type (c.relationshipKey type id name)

section Prefix

variable {held before after : Content} {type key : String} {n : Nat}

/-- Strings that were there before, and those of a name of the index, may be there. -/
theorem KeepsIndex.of_strings
    (hnames : ∀ name ∈ before.sets (c.indexKey type), name ∈ after.sets (c.indexKey type))
    (hstrings : ∀ id name, (after.strings (c.relationshipKey type id name)).isSome →
      (before.strings (c.relationshipKey type id name)).isSome ∨
        c.InIndex after type (c.relationshipKey type id name)) :
    c.KeepsIndex type before after where
  names := hnames
  indexed id name hbefore hafter := by
    rcases hstrings id name hafter with hthere | hindexed
    · obtain ⟨id', name', hname', heq⟩ := hbefore hthere
      exact ⟨id', name', hnames name' hname', heq⟩
    · exact hindexed

/-- What a merge writes under the key of a relationship is a relationship of one of its items. -/
theorem indexed_of_mem_entries (htype : ValidType type) {items : List Item} {id name : String}
    (h : c.relationshipKey type id name ∈ (items.flatMap (c.entries type)).map (·.1))
    (hnames : ∀ name ∈ relationshipNames items, name ∈ held.sets (c.indexKey type)) :
    c.InIndex held type (c.relationshipKey type id name) := by
  obtain ⟨item, hitem, hkey | ⟨r, hr, hkey⟩⟩ := c.exists_item_of_mem_keys h
  · exact absurd hkey.symm (c.attributesKey_ne_relationshipKey htype htype)
  · exact ⟨item.id, r, hnames r (mem_relationshipNames.2 ⟨item, hitem, hr⟩), hkey⟩

/-- The requests of an eviction leave the index of its type as it is. -/
theorem index_evict_take (htype : ValidType type) (ids : List String) (held : Content) (n : Nat) :
    (held.carryOut (((Write.evict type ids).requests c held).take n)).sets (c.indexKey type) =
      held.sets (c.indexKey type) := by
  apply Content.carryOut_induction (P := fun content =>
    content.sets (c.indexKey type) = held.sets (c.indexKey type)) _ rfl
  intro r hr content hcontent
  rw [← hcontent]
  have hmem := List.mem_of_mem_take hr
  simp only [Write.requests, List.mem_cons, List.not_mem_nil, or_false] at hmem
  rcases hmem with rfl | rfl | rfl
  · rfl
  · exact if_neg fun hkey => (c.isStringKey_of_mem_deleted htype hkey).ne_indexKey c htype rfl
  · exact Function.update_of_ne (c.indexKey_ne_membersKey htype htype) _ _

/-- The requests of an eviction leave no string that was not there. -/
theorem strings_evict_take (ids : List String) (held : Content) (n : Nat)
    (h : ((held.carryOut (((Write.evict type ids).requests c held).take n)).strings key).isSome) :
    (held.strings key).isSome := by
  revert h
  -- of the requests of an eviction only the deletion touches strings, and it adds none
  apply Content.carryOut_induction (P := fun content =>
    (content.strings key).isSome → (held.strings key).isSome) _ id
  intro r hr content hcontent
  have hmem := List.mem_of_mem_take hr
  simp only [Write.requests, List.mem_cons, List.not_mem_nil, or_false] at hmem
  rcases hmem with rfl | rfl | rfl
  · exact hcontent
  · intro hleft
    apply hcontent
    simp only [Content.answer, Content.remove] at hleft
    split at hleft
    · simp at hleft
    · exact hleft
  · exact hcontent

/-- Adding to a set takes no member from any set. -/
theorem mem_answer_sadd {x k : String} {members : List String} (h : x ∈ held.sets k) :
    x ∈ (held.answer (.sadd key members)).2.sets k := by
  show x ∈ Function.update held.sets key _ k
  by_cases hk : k = key
  · subst hk
    simp [h]
  · rwa [Function.update_of_ne hk]

/-- When the strings of a merge have been written the index has the names. -/
theorem merge_take (type : String) (items : List Item) (held : Content) (n : Nat) :
    (held.carryOut (((Write.merge type items).requests c held).take (n + 2))).strings =
        (held.put (items.flatMap (c.entries type))).strings ∧
      ∀ name, name ∈ held.sets (c.indexKey type) ∨ name ∈ relationshipNames items →
        name ∈ (held.carryOut (((Write.merge type items).requests c held).take (n + 2))).sets
          (c.indexKey type) := by
  -- the last request, made or not, changes no string and takes no name away
  apply Content.carryOut_induction (P := fun after =>
    after.strings = (held.put (items.flatMap (c.entries type))).strings ∧
      ∀ name, name ∈ held.sets (c.indexKey type) ∨ name ∈ relationshipNames items →
        name ∈ after.sets (c.indexKey type))
    ([Store.Request.sadd (c.membersKey type) ((items.filter (!·.isBlank)).map (·.id))].take n)
    (c := held.carryOut [.sadd (c.indexKey type) (relationshipNames items),
      .mset (items.flatMap (c.entries type))])
  · refine ⟨rfl, fun name hname => ?_⟩
    show name ∈ Function.update held.sets (c.indexKey type) _ (c.indexKey type)
    simpa using hname
  · intro r hr after hafter
    obtain rfl := List.mem_singleton.1 (List.mem_of_mem_take hr)
    exact ⟨hafter.1, fun name hname => mem_answer_sadd (hafter.2 name hname)⟩

/-- Whenever a write has carried out its first requests the index has all names that it needs. -/
theorem keepsIndex_take {write : Write} (htype : ValidType write.type) (held : Content) (n : Nat) :
    c.KeepsIndex write.type held (held.carryOut ((write.requests c held).take n)) := by
  cases write with
  | evict type ids =>
    replace htype : ValidType type := htype
    apply KeepsIndex.of_strings
    · intro name hname
      rwa [Write.type, index_evict_take c htype]
    · exact fun id name h => .inl (strings_evict_take c ids held n h)
  | merge type items =>
    replace htype : ValidType type := htype
    -- the names enter the index with the first request, before any relationship is stored
    match n with
    | 0 => exact .of_strings c (fun _ hname => hname) fun _ _ h => .inl h
    | 1 => exact .of_strings c (fun _ hname => mem_answer_sadd hname) fun _ _ h => .inl h
    | n + 2 =>
      obtain ⟨hstrings, hnames⟩ := c.merge_take type items held n
      apply KeepsIndex.of_strings c fun name hname => hnames name (.inl hname)
      intro id name hthere
      rw [hstrings] at hthere
      by_cases hentry : c.relationshipKey type id name ∈
          (items.flatMap (c.entries type)).map (·.1)
      · exact .inr (c.indexed_of_mem_entries htype hentry fun r hr => hnames r (.inr hr))
      · rw [Content.strings_put_of_notMem hentry] at hthere
        exact .inl hthere

/-- A merge that has not carried out its last request has added no member. -/
theorem members_merge_take (htype : ValidType type) (items : List Item)
    (hn : n < ((Write.merge type items).requests c held).length) :
    (held.carryOut (((Write.merge type items).requests c held).take n)).sets (c.membersKey type) =
      held.sets (c.membersKey type) := by
  have hindex : c.membersKey type ≠ c.indexKey type :=
    (c.indexKey_ne_membersKey htype htype).symm
  match n, hn with
  | 0, _ => rfl
  | 1, _ | 2, _ => exact Function.update_of_ne hindex _ _

/-- After its first requests a write still has the same requests to make. -/
theorem requests_take {write : Write} (htype : ValidType write.type) (held : Content) (n : Nat) :
    write.requests c (held.carryOut ((write.requests c held).take n)) = write.requests c held := by
  cases write with
  | merge type items => rfl
  | evict type ids =>
    replace htype : ValidType type := htype
    rw [Write.requests, c.index_evict_take htype]
    rfl

/-- What a write has left is made whole by carrying out all its requests. -/
theorem carryOut_requests_take {write : Write} (htype : ValidType write.type) (held : Content)
    (n : Nat) :
    (held.carryOut ((write.requests c held).take n)).carryOut
        (write.requests c (held.carryOut ((write.requests c held).take n))) =
      held.carryOut (write.requests c held) := by
  rw [requests_take c htype, Content.carryOut_carryOut_take]

end Prefix

/-! ## Making a write again -/

/-- A write is made again and again until it succeeds, each time on what is left from the time
before, and with other faults. -/
inductive Retried (write : Write) : Backing → Backing → Prop
  | succeeded {b : Backing} {calls : List Store.Request} {faults : List Store.Fault} {o' : Observed}
    (h : Action.on Observed.serve (write.perform c.writer) ⟨b, calls, faults⟩ = (.ok (), o')) :
    Retried write b o'.backing
  | stopped {b b' : Backing} {calls : List Store.Request} {faults : List Store.Fault}
    {o' : Observed} {e : DomainError}
    (h : Action.on Observed.serve (write.perform c.writer) ⟨b, calls, faults⟩ = (.error e, o'))
    (again : Retried write o'.backing b') : Retried write b b'

section Again

variable {o o' : Observed} {write : Write} {b b' : Backing} {e : DomainError}

/-- A write that succeeds has carried out all its requests. -/
theorem perform_ok (hready : o.backing.Ready) (htype : ValidType write.type)
    (h : Action.on Observed.serve (write.perform c.writer) o = (.ok (), o')) :
    o'.backing.content = o.backing.content.carryOut (write.requests c o.backing.content) := by
  have hending := (c.performs_write Observed.attends hready htype).ending
  rw [h] at hending
  generalize hafter : o'.backing.content = after at hending
  cases hending with
  | whole => rfl

/-- A write that stops has carried out some of its first requests. -/
theorem perform_error (hready : o.backing.Ready) (htype : ValidType write.type)
    (h : Action.on Observed.serve (write.perform c.writer) o = (.error e, o')) :
    ∃ n < (write.requests c o.backing.content).length,
      o'.backing.content =
        o.backing.content.carryOut ((write.requests c o.backing.content).take n) := by
  have hending := (c.performs_write Observed.attends hready htype).ending
  rw [h] at hending
  generalize hafter : o'.backing.content = after at hending
  cases hending with
  | part _ hn _ => exact ⟨_, hn, rfl⟩

/-- A write leaves a store that attends to requests. -/
theorem perform_ready (hready : o.backing.Ready) (htype : ValidType write.type)
    {result : Except DomainError Unit}
    (h : Action.on Observed.serve (write.perform c.writer) o = (result, o')) :
    o'.backing.Ready := by
  have hafter := (c.performs_write Observed.attends hready htype).ready
  rwa [h] at hafter

/-- However often it has stopped, a write that has succeeded at last leaves what all its requests
make of the store. -/
theorem Retried.content_eq (h : c.Retried write b b') (hready : b.Ready)
    (htype : ValidType write.type) :
    b'.content = b.content.carryOut (write.requests c b.content) := by
  induction h with
  | succeeded h =>
    have hcontent := c.perform_ok (o := ⟨_, _, _⟩) hready htype h
    exact hcontent
  | stopped h again ih =>
    obtain ⟨n, -, hcontent⟩ := c.perform_error (o := ⟨_, _, _⟩) hready htype h
    rw [ih (c.perform_ready hready htype h), hcontent, carryOut_requests_take c htype]

/-- On a store that fails no request a write of a valid type succeeds. -/
theorem perform_backing (hready : b.Ready) (htype : ValidType write.type) :
    ∃ b', Action.on Backing.serve (write.perform c.writer) b = (.ok (), b') ∧
      b'.content = b.content.carryOut (write.requests c b.content) := by
  have hending := (c.performs_write Backing.attends hready htype).ending
  generalize hon : Action.on Backing.serve (write.perform c.writer) b = outcome at hending
  obtain ⟨result, b'⟩ := outcome
  generalize hafter : b'.content = after at hending
  cases hending with
  | whole => exact ⟨b', rfl, hafter⟩
  | part h => exact h.elim

/-- Once nothing fails any more a write can be made to succeed. -/
theorem exists_retried (hready : b.Ready) (htype : ValidType write.type) :
    ∃ b', c.Retried write b b' := by
  obtain ⟨b', hperform, -⟩ := c.perform_backing hready htype
  obtain ⟨calls, hrun⟩ := Observed.run_of_noFaults (write.perform c.writer).run b []
  exact ⟨b', .succeeded (hrun.trans (by rw [← Action.on, hperform]))⟩

/-- Whatever a store holds, a write that stops because a request fails leaves every relationship
string with its name in the index if it had it before.  A merge that stops has added no member.  And
making the write again until it succeeds, which is possible, leaves what the write would have left
if nothing had failed. -/
theorem interrupted_write (hready : o.backing.Ready) (htype : ValidType write.type)
    (hstop : Action.on Observed.serve (write.perform c.writer) o = (.error e, o')) :
    c.KeepsIndex write.type o.backing.content o'.backing.content ∧
      (∀ type items, write = .merge type items →
        o'.backing.content.sets (c.membersKey type) =
          o.backing.content.sets (c.membersKey type)) ∧
      ∃ whole, Action.on Backing.serve (write.perform c.writer) o.backing = (.ok (), whole) ∧
        (∃ b', c.Retried write o'.backing b') ∧
        ∀ b', c.Retried write o'.backing b' → b'.content = whole.content := by
  -- a write that stops has carried out the requests up to one of them
  obtain ⟨n, hn, hcontent⟩ := c.perform_error hready htype hstop
  have hready' := c.perform_ready hready htype hstop
  obtain ⟨whole, hwhole, hleft⟩ := c.perform_backing hready htype
  refine ⟨?_, ?_, whole, hwhole, c.exists_retried hready' htype, fun b' hretried => ?_⟩
  · rw [hcontent]
    exact c.keepsIndex_take htype _ n
  · rintro type items rfl
    rw [hcontent]
    exact c.members_merge_take htype items hn
  · rw [hretried.content_eq c hready' htype, hleft, hcontent, carryOut_requests_take c htype]

end Again

/-- A merge of one relationship, which makes three requests. -/
def diskMerge : Write :=
  .merge "host" [(({ id := "a" } : Entity).withRelationship "disks" ["d"]).listed]

/-- An empty store that fails the second request. -/
def secondFails : Observed :=
  { backing := .memory {}, faults := [⟨none, .fail (.query "disk full"), 1, some 1⟩] }

/-- The merge stops after it has written the index, and before it writes a string. -/
theorem interrupted_write_secondFails :
    ∃ stopped, Action.on Observed.serve (diskMerge.perform (mk "fleetcache").writer) secondFails =
        (.error (.ofStoreError (.query "disk full")), stopped) ∧
      (mk "fleetcache").KeepsIndex "host" secondFails.backing.content stopped.backing.content ∧
      (∀ type items, diskMerge = .merge type items →
        stopped.backing.content.sets ((mk "fleetcache").membersKey type) =
          secondFails.backing.content.sets ((mk "fleetcache").membersKey type)) ∧
      ∃ whole,
        Action.on Backing.serve (diskMerge.perform (mk "fleetcache").writer) secondFails.backing =
          (.ok (), whole) ∧
        (∃ b', (mk "fleetcache").Retried diskMerge stopped.backing b') ∧
        ∀ b', (mk "fleetcache").Retried diskMerge stopped.backing b' →
          b'.content = whole.content := by
  have hready : secondFails.backing.Ready := trivial
  have htype : ValidType diskMerge.type := by decide
  have hstop : Action.on Observed.serve (diskMerge.perform (mk "fleetcache").writer) secondFails =
      (.error (.ofStoreError (.query "disk full")),
        (Action.on Observed.serve (diskMerge.perform (mk "fleetcache").writer) secondFails).2) :=
    Prod.ext (by decide +kernel) rfl
  exact ⟨_, hstop, interrupted_write (mk "fleetcache") hready htype hstop⟩

end KeyValueCache

end EntityCache
