import EntityCache.Proofs.Cache.Composite
import EntityCache.Proofs.Cache.History
import EntityCache.Proofs.Cache.Requests

/-!
# The order in which entities are returned

A lookup of several ids should return what it finds `InOrder`: each entity once, and in the order in
which the ids occur first in the request.  A cache that keeps entities itself does so.  A view over
several caches returns each entity once too, but source by source: first what the first source has,
then what the second has besides, and so on.  Within one source the order is that of the request, so
the answer of a view is in order exactly if no source has an id that is asked for after an id of a
later source (`getAllByIds_inOrder_iff`).
-/

namespace EntityCache

namespace Reader

/-! ## Lists by sources -/

section Listed

variable {α : Type} {sources : List α} {has : α → String → Bool} {ids : List String} {a b : String}

/-- The ids asked for that the sources have, source by source. -/
def listed (sources : List α) (has : α → String → Bool) (ids : List String) : List String :=
  distinct (sources.flatMap fun source => (distinct ids).filter (has source))

/-- What is listed are the ids asked for that some source has. -/
theorem mem_listed : a ∈ listed sources has ids ↔ a ∈ ids ∧ ∃ source ∈ sources, has source a := by
  simp only [listed, mem_distinct, List.mem_flatMap, List.mem_filter]
  constructor
  · rintro ⟨source, hsource, ha, hhas⟩
    exact ⟨ha, source, hsource, hhas⟩
  · rintro ⟨ha, source, hsource, hhas⟩
    exact ⟨source, hsource, ha, hhas⟩

/-- A single source lists in the order asked for. -/
theorem listed_singleton (source : α) :
    listed [source] has ids = (distinct ids).filter (has source) := by
  rw [listed, List.flatMap_singleton, distinct_eq_self ((nodup_distinct ids).filter _)]

/-- The first source lists what it has, then the others list the rest. -/
theorem listed_cons (source : α) (rest : List α) :
    listed (source :: rest) has ids = (distinct ids).filter (has source) ++
      (listed rest has ids).filter (· ∉ (distinct ids).filter (has source)) := by
  rw [listed, List.flatMap_cons, distinct_append,
    distinct_eq_self ((nodup_distinct ids).filter _), listed]

/-- What is listed comes by the first source that has it, and in the order of the request among what
comes by one source. -/
theorem pairwise_listed (sources : List α) (has : α → String → Bool) (ids : List String) :
    (listed sources has ids).Pairwise fun a b =>
      sources.findIdx (has · a) < sources.findIdx (has · b) ∨
        sources.findIdx (has · a) = sources.findIdx (has · b) ∧ ids.idxOf a < ids.idxOf b := by
  induction sources with
  | nil => exact .nil
  | cons source rest ih =>
    -- what the first source lists has it as its first source; what comes later has another one
    have hfirst {a : String} (h : a ∈ (distinct ids).filter (has source)) :
        (source :: rest).findIdx (has · a) = 0 := by
      rw [List.findIdx_cons, (List.mem_filter.1 h).2, cond_true]
    have hlater {a : String} (h : a ∈ (listed rest has ids).filter
        (· ∉ (distinct ids).filter (has source))) :
        (source :: rest).findIdx (has · a) = rest.findIdx (has · a) + 1 := by
      obtain ⟨hrest, hnot⟩ := List.mem_filter.1 h
      have hids : a ∈ distinct ids := mem_distinct.2 (mem_listed.1 hrest).1
      have hno : has source a = false := by
        simpa [hids] using hnot
      rw [List.findIdx_cons, hno, cond_false]
    rw [listed_cons, List.pairwise_append]
    refine ⟨?_, ?_, fun a ha b hb => ?_⟩
    · refine ((pairwise_idxOf_distinct ids).filter _).imp_of_mem fun ha hb hlt => ?_
      rw [hfirst ha, hfirst hb]
      exact .inr ⟨rfl, hlt⟩
    · refine (ih.filter _).imp_of_mem fun ha hb h => ?_
      rw [hlater ha, hlater hb]
      omega
    · rw [hfirst ha, hlater hb]
      exact .inl (Nat.succ_pos _)

/-- What is listed is in the order of the request exactly if nothing comes by a later source than
what is asked for after it. -/
theorem pairwise_idxOf_listed_iff :
    ((listed sources has ids).Pairwise fun a b => ids.idxOf a < ids.idxOf b) ↔
      ∀ a ∈ listed sources has ids, ∀ b ∈ listed sources has ids, ids.idxOf a < ids.idxOf b →
        sources.findIdx (has · a) ≤ sources.findIdx (has · b) := by
  have hlisted := pairwise_listed sources has ids
  constructor
  · intro hordered
    -- of two ids in the list one comes before the other, it does not matter which
    let Agree (a b : String) : Prop :=
      (ids.idxOf a < ids.idxOf b → sources.findIdx (has · a) ≤ sources.findIdx (has · b)) ∧
      (ids.idxOf b < ids.idxOf a → sources.findIdx (has · b) ≤ sources.findIdx (has · a))
    have hsymm : Std.Symm Agree := ⟨fun _ _ h => ⟨h.2, h.1⟩⟩
    have hagree : (listed sources has ids).Pairwise Agree := by
      refine (hordered.and hlisted).imp fun {a b} h => ⟨fun _ => ?_, fun hlt => ?_⟩
      · exact h.2.elim Nat.le_of_lt fun hsame => Nat.le_of_eq hsame.1
      · exact absurd h.1 (Nat.lt_asymm hlt)
    have hall := hagree.forall_of_forall fun _ _ => ⟨fun _ => Nat.le_refl _, fun _ => Nat.le_refl _⟩
    exact fun a ha b hb => (hall ha hb).1
  · intro h
    refine hlisted.imp_of_mem fun {a b} ha hb hbefore => ?_
    rcases hbefore with hsource | ⟨-, hlt⟩
    · by_contra hnot
      have hids {c : String} (hc : c ∈ listed sources has ids) : c ∈ ids := (mem_listed.1 hc).1
      have hle : ids.idxOf b < ids.idxOf a := by
        refine lt_of_le_of_ne (Nat.le_of_not_lt hnot) fun heq => ?_
        rw [List.idxOf_inj (hids hb)] at heq
        subst heq
        omega
      exact absurd (h b hb a ha hle) (Nat.not_le.2 hsource)
    · exact hlt

end Listed

/-! ## Operations that may fail -/

section Yields

variable {σ α β : Type} {S : Set σ} {p : α → Prop} {q : β → Prop}

/-- From every state of `S` the operation ends in `S`, and if it answers, the answer has `p`. -/
def Yields (S : Set σ) (op : ExceptT DomainError (StateM σ) α) (p : α → Prop) : Prop :=
  ∀ s ∈ S, (op.run s).2 ∈ S ∧ ∀ a, (op.run s).1 = .ok a → p a

/-- An answer at hand is yielded. -/
theorem yields_pure {a : α} (h : p a) : Yields S (pure a) p := by
  intro s hs
  refine ⟨hs, ?_⟩
  rintro _ ⟨⟩
  exact h

/-- Operations in turn yield what the last one does. -/
theorem Yields.bind {op : ExceptT DomainError (StateM σ) α}
    {next : α → ExceptT DomainError (StateM σ) β} (h : Yields S op p)
    (hnext : ∀ a, p a → Yields S (next a) q) : Yields S (op >>= next) q := by
  intro s hs
  obtain ⟨hs', hp⟩ := h s hs
  have hrun : (op >>= next).run s = ExceptT.bindCont next (op.run s).1 (op.run s).2 := rfl
  rw [hrun]
  cases hfirst : (op.run s).1 with
  | error e => exact ⟨hs', fun _ hok => by cases hok⟩
  | ok a => exact hnext a (hp a hfirst) _ hs'

/-- What is yielded has whatever follows from what it has. -/
theorem Yields.mono {op : ExceptT DomainError (StateM σ) α} {p' : α → Prop} (h : Yields S op p)
    (hp : ∀ a, p a → p' a) : Yields S op p' :=
  fun s hs => ⟨(h s hs).1, fun a ha => hp a ((h s hs).2 a ha)⟩

end Yields

end Reader

/-! ## What a store has under several keys -/

namespace Store

/-- A fault that leaves the number of slots right leaves the slots right. -/
theorem FaultEffect.distort_mget (effect : FaultEffect) {keys : List String}
    {slots : List (Option String)}
    (h : (effect.distort (.mget keys) slots).length = slots.length) :
    effect.distort (.mget keys) slots = slots := by
  cases effect with
  | fail e => rfl
  | short n =>
    simp only [distort, List.length_take] at h ⊢
    exact List.take_of_length_le (by omega)
  | extra n =>
    simp only [distort, List.length_append, List.length_replicate] at h ⊢
    obtain rfl : n = 0 := by omega
    simp

/-- A multi-key read with the right number of slots has what the store holds, whatever faults there
are. -/
theorem Observed.slots_of_mget {o : Observed} {keys : List String} {slots : List (Option String)}
    (h : o.backing.Sound) (hreply : (o.serve (.mget keys)).1 = .ok slots)
    (hlength : slots.length = keys.length) : slots = keys.map o.backing.content.strings := by
  have hbacking : ∀ a, (o.backing.serve (.mget keys)).1 = .ok a →
      a = keys.map o.backing.content.strings := by
    intro a ha
    rw [Backing.serve_of_reads h (show (Request.mget keys).Reads from trivial)] at ha
    split at ha
    · exact (Except.ok.inj ha).symm
    · cases ha
  -- an effect that does not make the read fail works on the answer of the store behind
  have hdistorted (effect : FaultEffect)
      (heffect : (o.backing.serve (.mget keys)).1.map (effect.distort _) = .ok slots) :
      slots = keys.map o.backing.content.strings := by
    cases ha : (o.backing.serve (.mget keys)).1 with
    | error e => rw [ha] at heffect; cases heffect
    | ok a =>
      rw [ha] at heffect
      obtain rfl := Except.ok.inj heffect
      obtain rfl := hbacking a ha
      exact effect.distort_mget (hlength.trans (List.length_map ..).symm)
  rw [serve] at hreply
  generalize Fault.choose (Request.mget keys).operation o.faults = choice at hreply
  rcases choice with ⟨_ | ⟨e | n | n⟩, faults⟩
  case none => exact hbacking slots hreply
  case some.fail => cases hreply
  case some.short => exact hdistorted _ hreply
  case some.extra => exact hdistorted _ hreply

end Store

/-! ## What a deployment holds -/

namespace Deployment

open Store (Content Request)

variable {d d' : Deployment} {store : String}

/-- What the store of a name holds. -/
def content (d : Deployment) (store : String) : Content :=
  d.stores[store]?.elim .empty fun o => o.backing.content

/-- The tables of all databases hold no row twice. -/
def Sound (d : Deployment) : Prop := ∀ store : String, ∀ o ∈ d.stores[store]?, o.backing.Sound

/-- Two deployments hold the same, whatever requests they have recorded and faults lie ahead. -/
structure Alike (d d' : Deployment) : Prop where
  direct : ∀ name, d'.direct.getD name {} = d.direct.getD name {}
  content : ∀ store, d'.content store = d.content store

/-- The store of a name attends to requests; there are only failures where there is no store. -/
theorem attends (store : String) :
    Store.Attends True (serve store) (·.content store) Sound where
  outcome r d h := by
    -- a request to a store that is not there fails
    rw [serve]
    cases ho : d.stores[store]? with
    | none => exact .failed trivial _
    | some o =>
      have houtcome := Store.Observed.attends_sound.outcome r o (h store o ho)
      simpa [content, ho] using houtcome
  ready r d h := by
    rw [serve]
    cases ho : d.stores[store]? with
    | none => exact h
    | some o =>
      intro store' o' ho'
      simp only [Option.mem_def, Std.ExtTreeMap.getElem?_insert, compare_eq_iff_eq] at ho'
      split at ho'
      · obtain rfl := Option.some_inj.1 ho'
        exact Store.Observed.attends_sound.ready r o (h store o ho)
      · exact h store' o' ho'

/-- A request to a store changes no direct cache. -/
theorem direct_serve (r : Request) (d : Deployment) : (serve store r d).2.direct = d.direct := by
  rw [serve]
  split <;> rfl

/-- A request to one store leaves the others alone. -/
theorem content_serve_of_ne {store' : String} (h : store' ≠ store) (r : Request) (d : Deployment) :
    (serve store r d).2.content store' = d.content store' := by
  rw [serve]
  split
  · rfl
  · simp [content, Std.ExtTreeMap.getElem?_insert, Ne.symm h]

/-- The deployments that hold the same as this one. -/
def alikes (d : Deployment) : Set Deployment := { d' | d.Alike d' ∧ d'.Sound }

/-- A read of a store leaves the deployment as it is. -/
theorem serve_mem_alikes {r : Request} (hr : r.Reads) (h : d' ∈ d.alikes) :
    (serve store r d').2 ∈ d.alikes := by
  obtain ⟨halike, hsound⟩ := h
  refine ⟨⟨fun name => ?_, fun store' => ?_⟩, (attends store).ready r d' hsound⟩
  · rw [direct_serve]
    exact halike.direct name
  · rw [← halike.content]
    by_cases hstore : store' = store
    · subst hstore
      have houtcome := (attends store').outcome r d' hsound
      generalize (serve store' r d').1 = reply, (serve store' r d').2.content store' = after
        at houtcome ⊢
      cases houtcome with
      | failed => rfl
      | answered => exact Content.answer_of_reads hr _
    · exact content_serve_of_ne hstore r d'

/-- A multi-key read with the right number of slots has what the store of the name holds. -/
theorem slots_of_mget {keys : List String} {slots : List (Option String)} (h : d' ∈ d.alikes)
    (hreply : (serve store (.mget keys) d').1 = .ok slots) (hlength : slots.length = keys.length) :
    slots = keys.map (d.content store).strings := by
  rw [← h.1.content store, content]
  rw [serve] at hreply
  cases ho : d'.stores[store]? with
  | none => rw [ho] at hreply; cases hreply
  | some o =>
    rw [ho] at hreply
    exact Store.Observed.slots_of_mget (h.2 store o ho) hreply hlength

end Deployment

namespace KeyValueCache

variable (c : KeyValueCache) {type : String}

/-- What is read one after another has the ids that are there, if each is read under its own. -/
theorem map_id_readEach {read : String → Except DomainError (Option Entity)} {there : String → Bool}
    {ids : List String} {found : List Entity}
    (hread : ∀ id e, read id = .ok e → e.map (·.id) = if there id then some id else none)
    (h : readEach read ids = .ok found) : found.map (·.id) = ids.filter there := by
  induction ids generalizing found with
  | nil =>
    obtain rfl := Except.ok.inj h
    rfl
  | cons id ids ih =>
    rw [readEach] at h
    cases hid : read id with
    | error e => rw [hid] at h; cases h
    | ok e =>
      have hthere := hread id e hid
      rw [hid] at h
      -- an id that is not there is left out, one that is there comes with the rest
      cases e with
      | none =>
        have hno : there id = false := by
          by_contra hyes
          simp [hyes] at hthere
        rw [List.filter_cons_of_neg (by simp [hno]), ih h]
      | some e =>
        obtain ⟨hyes, heq⟩ : there id = true ∧ e.id = id := by
          by_cases hyes : there id <;> simp_all
        replace h : (readEach read ids).map (e :: ·) = .ok found := h
        cases hrest : readEach read ids with
        | error e => rw [hrest] at h; cases h
        | ok rest =>
          rw [hrest] at h
          obtain rfl := Except.ok.inj h
          rw [List.map_cons, List.filter_cons_of_pos hyes, ih hrest, heq]

/-- An entity is decoded under its id if its attributes are there. -/
theorem map_id_decodeEntity {known : List String} {f : String → Option String} {id : String}
    {e : Option Entity}
    (h : decodeEntity known id ((c.entityKeys known type id).map f) = .ok e) :
    e.map (·.id) = if (f (c.attributesKey type id)).isSome then some id else none := by
  rw [entityKeys, List.map_cons] at h
  cases hattributes : f (c.attributesKey type id) with
  | none =>
    rw [hattributes] at h
    obtain rfl := Except.ok.inj h
    rfl
  | some text =>
    rw [hattributes] at h
    simp only [decodeEntity] at h
    split at h
    · cases h
    -- with attributes read, the entity has the id asked for, whatever its relationships
    case h_2 attributes _ =>
      cases hnamed : decodeRelationships known ((known.map (c.relationshipKey type id)).map f) with
      | error e => rw [hnamed] at h; cases h
      | ok named =>
        rw [hnamed] at h
        obtain rfl := Except.ok.inj h
        rfl

/-! ## What a cache on a store returns -/

section Yields

variable {α β : Type} {d : Deployment} {store : String} {p : α → Prop} {q : β → Prop}

/-- An operation on the store of a name. -/
def Action.onStore (store : String) (a : Action α) : ExceptT DomainError (StateM Deployment) α :=
  ExceptT.mk (Deployment.onStore store a.run)

/-- Operations run on a store one after the other. -/
theorem Action.onStore_bind (a : Action α) (f : α → Action β) :
    (a >>= f).onStore store = a.onStore store >>= fun x => (f x).onStore store := by
  apply ExceptT.ext
  funext d
  show (Program.bind a.run (ExceptT.bindCont f)).run (Deployment.serve store) d = _
  rw [Program.run_bind]
  show _ = (ExceptT.bindCont (fun x => (f x).onStore store)
    (a.run.run (Deployment.serve store) d).1 : StateM Deployment (Except DomainError β))
      (a.run.run (Deployment.serve store) d).2
  cases (a.run.run (Deployment.serve store) d).1 <;> rfl

/-- One operation after another: the second is made with what the first has answered. -/
theorem yields_bind {a : Action α} {f : α → Action β}
    (h : Reader.Yields d.alikes (a.onStore store) p)
    (hnext : ∀ x, p x → Reader.Yields d.alikes ((f x).onStore store) q) :
    Reader.Yields d.alikes ((a >>= f).onStore store) q := by
  rw [Action.onStore_bind]
  exact h.bind hnext

/-- Validation yields nothing to speak of. -/
theorem yields_validate (type : String) :
    Reader.Yields d.alikes ((validate type).onStore store) fun _ => True := by
  intro d' hd'
  rw [validate]
  split
  · exact ⟨hd', fun _ _ => trivial⟩
  · exact ⟨hd', fun _ hok => by cases hok⟩

/-- A request that reads leaves the stores alike, so what follows from each answer is yielded. -/
theorem yields_call {r : Store.Request} (hr : r.Reads) {p : r.Answer → Prop}
    (hp : ∀ d' ∈ d.alikes, ∀ a, (Deployment.serve store r d').1 = .ok a → p a) :
    Reader.Yields d.alikes ((call r).onStore store) p := by
  intro d' hd'
  refine ⟨Deployment.serve_mem_alikes hr hd', fun a ha => hp d' hd' a ?_⟩
  replace ha : (Deployment.serve store r d').1.mapError DomainError.ofStoreError = .ok a := ha
  cases hreply : (Deployment.serve store r d').1 with
  | error e => rw [hreply] at ha; cases ha
  | ok a' =>
    rw [hreply] at ha
    exact congrArg Except.ok (Except.ok.inj ha)

end Yields

/-- A lookup returns the ids whose attributes are there, in the order of the request. -/
theorem yields_getAllByIds (d : Deployment) (store type : String) (ids : List String) :
    Reader.Yields d.alikes ((c.reader.lift (Deployment.onStore store)).getAllByIds type ids)
      fun found => found.map (·.id) = (distinct ids).filter fun id =>
        ((d.content store).strings (c.attributesKey type id)).isSome := by
  show Reader.Yields d.alikes ((c.getAllByIds type ids).onStore store) _
  rw [getAllByIds]
  refine yields_bind (yields_validate type) fun _ _ => ?_
  by_cases hempty : (distinct ids).isEmpty
  · rw [if_pos hempty, List.isEmpty_iff.1 hempty]
    exact Reader.yields_pure rfl
  rw [if_neg hempty]
  -- the reply to the index does not matter: an id is listed for its attributes alone
  refine yields_bind (yields_call (r := .smembers _) trivial fun _ _ _ _ => trivial)
    fun known _ => ?_
  refine yields_bind (yields_call (r := .mget _) trivial fun d' hd' slots hreply =>
    Deployment.slots_of_mget hd' hreply) fun slots hslots => ?_
  split
  case isTrue => exact fun d' hd' => ⟨hd', fun _ hok => by cases hok⟩
  case isFalse hlength =>
    refine fun d' hd' => ⟨hd', fun found hfound => ?_⟩
    rw [not_not] at hlength
    rw [hslots hlength] at hfound
    replace hfound : decodeEntities known (distinct ids) _ = .ok found := hfound
    rw [decodeEntities_flatMap] at hfound
    exact map_id_readEach (fun id e h => c.map_id_decodeEntity h) hfound

end KeyValueCache

/-! ## What a direct cache returns -/

namespace DirectCache

variable {c : DirectCache} {type : String}

/-- A lookup returns the visible ids, in the order of the request. -/
theorem map_id_getAllByIds (h : c.Keyed type) (ids : List String) :
    (c.getAllByIds type ids).map (·.id) =
      (distinct ids).filter fun id => (c.view type id).isSome := by
  have hview (id : String) : (c.view type id).map (·.id) =
      Option.guard (fun id => (c.view type id).isSome) id := by
    cases hid : c.view type id with
    | none => simp [Option.guard, hid]
    | some e => simp [Option.guard, hid, h.view id e hid]
  rw [getAllByIds, List.filter_filterMap, List.map_filterMap, ← List.filterMap_eq_filter]
  exact List.filterMap_congr fun id _ => hview id

end DirectCache

/-! ## Caches of a deployment -/

namespace Deployment

/-- Whether a cache that keeps entities itself has an entity to return for an id. -/
def has (d : Deployment) (type : String) : CacheHandle → String → Bool
  | .keyValue store c, id => ((d.content store).strings (c.attributesKey type id)).isSome
  | .direct name, id => ((d.direct.getD name {}).view type id).isSome
  | .composite _, _ => false

/-- Every direct cache keeps entities under their ids. -/
def Keyed (d : Deployment) : Prop := ∀ name type, (d.direct.getD name {}).Keyed type

end Deployment

namespace CacheHandle

mutual

/-- The caches that a cache is made of in the end, in order of precedence. -/
def leaves : CacheHandle → List CacheHandle
  | keyValue store cache => [keyValue store cache]
  | direct name => [direct name]
  | composite sources => allLeaves sources

/-- The caches that several caches are made of. -/
def allLeaves : List CacheHandle → List CacheHandle
  | [] => []
  | source :: rest => leaves source ++ allLeaves rest

end

variable {d : Deployment}

mutual

/-- A lookup returns the ids that are there, source by source. -/
theorem yields_getAllByIds (hd : d.Keyed) (type : String) (ids : List String) :
    (h : CacheHandle) → Reader.Yields d.alikes (h.reader.getAllByIds type ids) fun found =>
      found.map (·.id) = Reader.listed h.leaves (d.has type) ids
  | keyValue store c => by
    refine (c.yields_getAllByIds d store type ids).mono fun found hfound => ?_
    rw [leaves, Reader.listed_singleton, hfound]
    rfl
  | direct name => by
    rintro d' ⟨halike, hsound⟩
    refine ⟨⟨⟨fun name' => ?_, halike.content⟩, hsound⟩, ?_⟩
    · -- the cache that has been read is put back as it was
      rw [← halike.direct name']
      show (d'.direct.insert name (d'.direct.getD name {})).getD name' {} = _
      rw [Std.ExtTreeMap.getD_insert]
      simp only [compare_eq_iff_eq]
      split
      case isTrue hname => rw [hname]
      case isFalse => rfl
    · rintro _ ⟨⟩
      rw [leaves, Reader.listed_singleton]
      show ((d'.direct.getD name {}).getAllByIds type ids).map (·.id) = _
      rw [halike.direct, DirectCache.map_id_getAllByIds (hd name type)]
      rfl
  | composite sources => by
    rw [reader, leaves]
    simp only [Reader.composite]
    split
    case isTrue hempty =>
      refine Reader.yields_pure ?_
      rw [List.isEmpty_iff.1 hempty]
      refine (List.eq_nil_iff_forall_not_mem.2 fun id => ?_).symm
      simp [Reader.mem_listed]
    case isFalse =>
      refine (yields_askAll hd type ids sources).bind fun perSource hper => Reader.yields_pure ?_
      rw [Reader.map_id_mergeSources, hper]

/-- What the sources return one after another has the ids that are there, source by source. -/
theorem yields_askAll (hd : d.Keyed) (type : String) (ids : List String) :
    (sources : List CacheHandle) →
      Reader.Yields d.alikes (Reader.askAll (·.getAllByIds type ids) (readers sources))
        fun perSource => distinct (perSource.flatten.map (·.id)) =
          Reader.listed (allLeaves sources) (d.has type) ids
  | [] => Reader.yields_pure rfl
  | source :: rest => by
    refine (yields_getAllByIds hd type ids source).bind fun found hfound => ?_
    refine (yields_askAll hd type ids rest).bind fun perSource hper => Reader.yields_pure ?_
    rw [List.flatten_cons, List.map_append, hfound, allLeaves, Reader.listed, Reader.listed,
      List.flatMap_append, distinct_append, distinct_append, hper, Reader.listed,
      distinct_eq_self (nodup_distinct _)]
    simp only [mem_distinct]

end

end CacheHandle

/-! ## Deployments that are reached -/

namespace DirectCache

variable {c : DirectCache}

/-- Entities stand under their ids after a write, whatever is written. -/
theorem keyed_perform (h : ∀ type, c.Keyed type) (write : Write) (type : String) :
    (on (write.perform writer) c).2.Keyed type := by
  -- both writes reach one type; an entity that is merged is put under its own id
  cases write with
  | merge type' items =>
    show (c.mergeAll type' items).Keyed type
    by_cases htype : type' = type
    · subst htype
      exact (h type').mergeAll items
    · intro id e he
      rw [entities_mergeAll, if_neg htype] at he
      exact h type id e he
  | evict type' ids =>
    show (c.evictAll type' ids).Keyed type
    intro id e he
    replace he : ((c.evictAll type' ids).entities type)[id]? = some e := he
    rw [getElem?_entities_evictAll] at he
    split at he
    · cases he
    · exact h type id e he

end DirectCache

namespace Deployment

variable {d d' : Deployment} {store : String}

/-- Requests to a store leave the direct caches alone. -/
theorem direct_run {α : Type} (p : Store.Calls α) (d : Deployment) :
    (p.run (serve store) d).2.direct = d.direct := by
  induction p generalizing d with
  | done x => rfl
  | ask r next ih => exact (ih _ _).trans (direct_serve r d)

/-- A deployment that starts without entities in its direct caches, is written to through its
caches, and whose stores may change otherwise as they like. -/
inductive Reached : Deployment → Prop
  | start {d : Deployment} (hdirect : d.direct = ∅) (hsound : d.Sound) : Reached d
  | write {d : Deployment} (h : Reached d) {cache : CacheHandle} {w : Writer (StateM Deployment)}
    (hw : cache.writer? = some w) (write : Write) : Reached ((write.perform w).run d).2
  | aside {d d' : Deployment} (h : Reached d)
    (hdirect : ∀ name, d'.direct.getD name {} = d.direct.getD name {}) (hsound : d'.Sound) :
    Reached d'

/-- A write through a cache on a store is one to the store, one through a direct cache is one to
this cache. -/
theorem perform_writer? {cache : CacheHandle} {w : Writer (StateM Deployment)}
    (hw : cache.writer? = some w) (write : Write) :
    (∃ store, ∃ p : Store.Calls (Except DomainError Unit),
      (write.perform w).run = onStore store p) ∨
    ∃ name, (write.perform w).run = onDirect name (write.perform DirectCache.writer).run := by
  cases cache with
  | keyValue store c =>
    obtain rfl := Option.some_inj.1 hw
    left
    cases write <;> exact ⟨store, _, rfl⟩
  | direct name =>
    obtain rfl := Option.some_inj.1 hw
    right
    cases write <;> exact ⟨name, rfl⟩
  | composite sources => cases hw

/-- In every deployment reached, entities are under their own ids and the stores are sound. -/
theorem Reached.keyed_sound (h : d.Reached) : d.Keyed ∧ d.Sound := by
  induction h with
  | start hdirect hsound =>
    refine ⟨fun name type => ?_, hsound⟩
    rw [hdirect, Std.ExtTreeMap.getD_empty]
    exact DirectCache.keyed_empty type
  | @write d h cache w hw write ih =>
    obtain ⟨hkeyed, hsound⟩ := ih
    -- a write goes to a store and leaves the direct caches, or to a direct cache
    rcases perform_writer? hw write with ⟨store, p, hrun⟩ | ⟨name, hrun⟩
    · rw [hrun]
      refine ⟨fun name type => ?_, (attends store).ready_run p hsound⟩
      rw [onStore, direct_run]
      exact hkeyed name type
    · rw [hrun]
      refine ⟨fun name' type => ?_, hsound⟩
      show ((d.direct.insert name _).getD name' {}).Keyed type
      rw [Std.ExtTreeMap.getD_insert]
      split
      · exact DirectCache.keyed_perform (hkeyed name) write type
      · exact hkeyed name' type
  | aside h hdirect hsound ih =>
    refine ⟨fun name type => ?_, hsound⟩
    rw [hdirect]
    exact ih.1 name type

/-- The place of the first cache that has an entity to return for an id, among those that a cache is
made of. -/
def sourceOf (d : Deployment) (type : String) (cache : CacheHandle) (id : String) : Nat :=
  cache.leaves.findIdx (d.has type · id)

end Deployment

/-- Each entity stands there once, and where its id occurs first in the request. -/
def Reader.InOrder (ids : List String) (found : List Entity) : Prop :=
  (found.map (·.id)).Pairwise fun a b => ids.idxOf a < ids.idxOf b

namespace CacheHandle

variable {d d' : Deployment} {cache : CacheHandle} {type : String} {ids : List String}
  {found : List Entity}

/-- Whenever a lookup of ids answers, it has each id once, and it has the ids of the request that
one of the caches has that the cache is made of.  They are in the order of the request exactly if no
id that is there comes from a later one of these caches than an id that is asked for after it.  So
a cache that keeps entities itself returns them in order, with whatever ids it is asked for. -/
theorem getAllByIds_inOrder_iff (hd : d.Reached)
    (hfound : (cache.reader.getAllByIds type ids).run d = (.ok found, d')) :
    (found.map (·.id)).Nodup ∧
      (∀ id, id ∈ found.map (·.id) ↔ id ∈ ids ∧ ∃ leaf ∈ cache.leaves, d.has type leaf id) ∧
      (Reader.InOrder ids found ↔ ∀ a ∈ found, ∀ b ∈ found, ids.idxOf a.id < ids.idxOf b.id →
        d.sourceOf type cache a.id ≤ d.sourceOf type cache b.id) ∧
      ((∀ sources, cache ≠ composite sources) → Reader.InOrder ids found) := by
  obtain ⟨hkeyed, hsound⟩ := hd.keyed_sound
  have hself : d ∈ d.alikes := ⟨⟨fun _ => rfl, fun _ => rfl⟩, hsound⟩
  -- everything follows from the list of ids: those of the first source first, and so on
  have hlisted : found.map (·.id) = Reader.listed cache.leaves (d.has type) ids :=
    (yields_getAllByIds hkeyed type ids cache d hself).2 found (congrArg Prod.fst hfound)
  have hiff : Reader.InOrder ids found ↔ ∀ a ∈ found, ∀ b ∈ found,
      ids.idxOf a.id < ids.idxOf b.id →
        d.sourceOf type cache a.id ≤ d.sourceOf type cache b.id := by
    rw [Reader.InOrder, hlisted, Reader.pairwise_idxOf_listed_iff, ← hlisted]
    simp only [List.forall_mem_map]
    rfl
  refine ⟨?_, fun id => ?_, hiff, fun hleaf => ?_⟩
  · rw [hlisted]
    exact nodup_distinct _
  · rw [hlisted, Reader.mem_listed]
  · have hone : cache.leaves = [cache] := by
      cases cache with
      | keyValue _ _ | direct _ => rw [leaves]
      | composite sources => exact absurd rfl (hleaf sources)
    rw [Reader.InOrder, hlisted, hone, Reader.listed_singleton]
    exact (pairwise_idxOf_distinct ids).filter _

/-- Entities of the first and of the second of two caches. -/
def entryB : Entity := ({ id := "b" } : Entity).withAttribute "x" (.number (.integer 1))

def entryA : Entity := ({ id := "a" } : Entity).withAttribute "x" (.number (.integer 2))

/-- A merge of one entity through a direct cache. -/
def mergedInto (name : String) (e : Entity) (d : Deployment) : Deployment :=
  (((Write.merge "type" [e.listed]).perform
    (DirectCache.writer.lift (Deployment.onDirect name))).run d).2

/-- Two caches that have one entity each. -/
def oneEach : Deployment := mergedInto "second" entryA (mergedInto "first" entryB {})

/-- Two merges lead to the deployment. -/
theorem reached_oneEach : oneEach.Reached := by
  have hempty : ({} : Deployment).Reached := .start rfl fun store o ho => by simp at ho
  have hfirst : (mergedInto "first" entryB {}).Reached :=
    @Deployment.Reached.write _ hempty (direct "first") _ rfl _
  exact @Deployment.Reached.write _ hfirst (direct "second") _ rfl _

/-- The view over the two caches. -/
def overBoth : CacheHandle := composite [direct "first", direct "second"]

/-- The caches are asked for `a` and `b` and answer `b` first, since the first cache has it. -/
theorem run_oneEach : (overBoth.reader.getAllByIds "type" ["a", "b"]).run oneEach =
    (.ok [entryB, entryA], ((overBoth.reader.getAllByIds "type" ["a", "b"]).run oneEach).2) :=
  Prod.ext (by decide +kernel) rfl

/-- The view asks the first cache first, and so returns the id that is asked for last before the
other. -/
theorem getAllByIds_inOrder_iff_oneEach :
    ∃ d', (overBoth.reader.getAllByIds "type" ["a", "b"]).run oneEach =
        (.ok [entryB, entryA], d') ∧
      ([entryB, entryA].map (·.id)).Nodup ∧
      ¬(oneEach.sourceOf "type" overBoth "a" ≤ oneEach.sourceOf "type" overBoth "b") ∧
      ¬Reader.InOrder ["a", "b"] [entryB, entryA] := by
  have hordered := getAllByIds_inOrder_iff reached_oneEach run_oneEach
  have hsource : ¬(oneEach.sourceOf "type" overBoth "a" ≤ oneEach.sourceOf "type" overBoth "b") := by
    decide +kernel
  refine ⟨_, run_oneEach, hordered.1, hsource, fun h => hsource ?_⟩
  exact hordered.2.2.1.1 h entryA (by simp) entryB (by simp) (by decide)

/-- A lookup may return what it finds in another order than that of the request. -/
theorem not_always_inOrder : ¬∀ (d d' : Deployment) (cache : CacheHandle) (type : String)
    (ids : List String) (found : List Entity), d.Reached →
    (cache.reader.getAllByIds type ids).run d = (.ok found, d') → Reader.InOrder ids found := by
  intro h
  have hordered := h oneEach _ overBoth "type" ["a", "b"] _ reached_oneEach run_oneEach
  have hbefore : ["a", "b"].idxOf entryB.id < ["a", "b"].idxOf entryA.id :=
    List.rel_of_pairwise_cons hordered (by simp)
  revert hbefore
  decide

end CacheHandle

end EntityCache
