import EntityCache.Config.Validation
import EntityCache.Proofs.Cache.Backends

/-!
# Caches and types side by side on one store

Any number of caches can be kept on one store, and each of them keeps any number of types there.
What holds them apart is the beginning of a key, `P:T:`.  A prefix that a configuration may set has
no colon and neither has a valid type, so a key determines both (`typeKey_eq_iff`); what follows,
the id and the name of a relationship, may be anything.

A request touches nothing but the keys that it names, strings and sets alike, and an operation names
only keys of its own cache and type.  So no write is noticed under another prefix or on another
type: the keys of every operation there are left as they are, and its reads answer what they would
have answered before (`untouched_of_perform`).
-/

namespace EntityCache

open Store (Backing Content Observed)

/-- Valid prefixes are not empty and hold no colon. -/
theorem validKeyPrefix_iff {keyPrefix : String} :
    validKeyPrefix keyPrefix = true ↔ keyPrefix ≠ "" ∧ ':' ∉ keyPrefix.toList := by
  simp [validKeyPrefix]

namespace KeyValueCache

variable {c c' : KeyValueCache} {type type' : String}

/-! ## Keys of two caches -/

/-- A key determines its prefix, its type and its suffix. -/
theorem typeKey_eq_iff (hvalid : validKeyPrefix c.keyPrefix = true)
    (hvalid' : validKeyPrefix c'.keyPrefix = true) (htype : ValidType type)
    (htype' : ValidType type') {s s' : String} :
    c.typeKey type s = c'.typeKey type' s' ↔
      c.keyPrefix = c'.keyPrefix ∧ type = type' ∧ s = s' := by
  constructor
  · intro h
    have hfirst : c.keyPrefix ++ ":" ++ (type ++ ":" ++ s) =
        c'.keyPrefix ++ ":" ++ (type' ++ ":" ++ s') := by
      simpa only [typeKey, String.append_assoc] using h
    obtain ⟨hsame, hrest⟩ := colon_split_first (validKeyPrefix_iff.1 hvalid).2
      (validKeyPrefix_iff.1 hvalid').2 hfirst
    exact ⟨hsame, colon_split_first htype.2 htype'.2 hrest⟩
  · rintro ⟨hsame, rfl, rfl⟩
    rw [typeKey, typeKey, hsame]

/-- Operations of two caches, or on two types, have no key in common. -/
theorem Makes.key_notMem (hvalid : validKeyPrefix c.keyPrefix = true)
    (hvalid' : validKeyPrefix c'.keyPrefix = true) (htype : ValidType type)
    (htype' : ValidType type') (hne : (c.keyPrefix, type) ≠ (c'.keyPrefix, type'))
    {r r' : Store.Request} (hr : c.Makes type r) (hr' : c'.Makes type' r') {key : String}
    (hkey : key ∈ r'.keys) : key ∉ r.keys := by
  intro hother
  obtain ⟨s', rfl⟩ := hr'.keys hkey
  obtain ⟨s, hs⟩ := hr.keys hother
  obtain ⟨hsamePrefix, htypes, -⟩ := (typeKey_eq_iff hvalid hvalid' htype htype').1 hs.symm
  exact hne (by rw [hsamePrefix, htypes])

/-! ## What another cache notices -/

/-- An operation that only reads. -/
def Operation.Reads : Operation → Prop
  | get .. | getAll _ | getAllByIds .. | getIdentifiers _ | filterIdentifiers .. => True
  | merge .. | mergeAll .. | evict .. | evictAll .. => False

/-- An operation that reads looks only at keys of its type. -/
theorem Operation.looks_action {op : Operation} (h : op.Reads) :
    (op.action c).Asks (c.Looks op.type) := by
  cases op with
  | merge _ _ | mergeAll _ _ | evict _ _ | evictAll _ _ => exact h.elim
  | get type id => exact asks_get type id
  | getAll type => exact asks_getAll type
  | getAllByIds type ids => exact asks_getAllByIds type ids
  | getIdentifiers type => exact asks_getIdentifiers type
  | filterIdentifiers type glob => exact asks_filterIdentifiers type glob

variable (c) in
/-- A store that has changed where no operation of the cache on the type comes upon it: every key
that one of their requests may name has its string and its set as before, and a read has the result
that it has before the change, whatever faults lie ahead of it. -/
structure Untouched (type : String) (before after : Backing) : Prop where
  keys : ∀ op : Operation, op.type = type → (op.action c).Asks fun r =>
    ∀ key ∈ r.keys, Content.SameAt key after.content before.content
  reads : ∀ op : Operation, op.type = type → op.Reads → ∀ calls calls' faults,
    (Action.on Observed.serve (op.action c) ⟨after, calls, faults⟩).1 =
      (Action.on Observed.serve (op.action c) ⟨before, calls', faults⟩).1

/-- A write keeps to the keys of its type. -/
theorem asks_perform (write : Write) :
    Action.Asks (c.Makes write.type) (write.perform c.writer) := by
  cases write with
  | merge type items => exact asks_mergeAll type items
  | evict type ids => exact asks_evictAll type ids

/-- No write of a cache, to whatever store and however it ends, is noticed by a cache with another
prefix or on another type. -/
theorem untouched_of_perform (hvalid : validKeyPrefix c.keyPrefix = true)
    (hvalid' : validKeyPrefix c'.keyPrefix = true) {write : Write} (htype : ValidType write.type)
    (htype' : ValidType type') (hne : (c.keyPrefix, write.type) ≠ (c'.keyPrefix, type'))
    {o : Observed} (hsound : o.backing.Sound) :
    c'.Untouched type' o.backing
      (Action.on Observed.serve (write.perform c.writer) o).2.backing := by
  -- a key that an operation of the other cache names is named by no request of the write
  have hsame {r : Store.Request} (hr : c'.Makes type' r) (key : String) (hkey : key ∈ r.keys) :
      Content.SameAt key (Action.on Observed.serve (write.perform c.writer) o).2.backing.content
        o.backing.content := by
    have hwrite : Action.Asks (fun r => key ∉ r.keys) (write.perform c.writer) :=
      (asks_perform write).mono fun _ hmade =>
        hmade.key_notMem hvalid hvalid' htype htype' hne hr hkey
    exact Observed.attends_sound.sameAt_run hwrite hsound
  constructor
  · rintro op rfl
    exact (op.asks_action c').mono fun r hr => hsame hr
  · rintro op rfl hreads calls calls' faults
    have halike : Backing.LookAlike {key | ∃ r, c'.Looks op.type r ∧ key ∈ r.keys}
        (Action.on Observed.serve (write.perform c.writer) o).2.backing o.backing :=
      ⟨Observed.attends_sound.ready_run _ hsound, hsound, Observed.isOpen_run _ o,
        fun key ⟨_, hr, hkey⟩ => hsame (.look hr) key hkey⟩
    refine Observed.run_eq_of_lookAlike ?_ halike calls calls' faults
    exact (Operation.looks_action hreads).mono fun r hr => ⟨hr.reads, fun _ hkey => ⟨r, hr, hkey⟩⟩

/-- A merge of a host whose id looks like the keys of another cache. -/
def misleadingMerge : Write :=
  .merge "host" [(({ id := "fleet:host:members" } : Entity).withRelationship "a:b" ["d"]).listed]

/-- The merge is carried out under the prefix `fleetcache`, and not noticed under `fleet`. -/
theorem untouched_of_perform_misleadingMerge :
    (Action.on Observed.serve (misleadingMerge.perform (mk "fleetcache").writer)
      { backing := .memory {} }).1 = .ok () ∧
    (mk "fleet").Untouched "host" (.memory {})
      (Action.on Observed.serve (misleadingMerge.perform (mk "fleetcache").writer)
        { backing := .memory {} }).2.backing :=
  have hsound : Backing.Sound (.memory {}) := trivial
  ⟨by decide +kernel, untouched_of_perform (by decide) (by decide) (by decide) (by decide)
    (by decide) (o := { backing := .memory {} }) hsound⟩

end KeyValueCache

end EntityCache
