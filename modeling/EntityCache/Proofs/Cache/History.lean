import EntityCache.Cache.Direct
import EntityCache.Proofs.Cache.Operations
import EntityCache.Proofs.Entity.Encoding

/-!
# Histories of writes

A history is a list of writes, carried out one after another by the writer of a cache.  What one
write preserves holds after every history; `performAll_on` says so of a key-value cache on a store
in memory, `performAll_simulates` of such a cache and a direct one, side by side.
-/

namespace EntityCache

/-- A write to a cache. -/
inductive Write where
  /-- Merges items of a type. -/
  | merge (type : String) (items : List Item)
  /-- Evicts ids of a type. -/
  | evict (type : String) (ids : List String)

namespace Write

/-- Carries out a write. -/
def perform {m : Type → Type} (w : Writer m) : Write → ExceptT DomainError m Unit
  | merge type items => w.mergeAll type items
  | evict type ids => w.evictAll type ids

/-- Carries out writes one after another, up to the first failure. -/
def performAll {m : Type → Type} [Monad m] (w : Writer m) :
    List Write → ExceptT DomainError m Unit
  | [] => pure ()
  | write :: rest => do
    write.perform w
    performAll w rest

/-- The write is on a valid type, and its relationships have names of the set. -/
def Within (names : Set String) : Write → Prop
  | merge type items =>
    KeyValueCache.ValidType type ∧ ∀ item ∈ items, ∀ name ∈ item.relationships, name ∈ names
  | evict type _ => KeyValueCache.ValidType type

/-- The write is on the type and mentions no id but this one. -/
def OnlyOn (type id : String) : Write → Prop
  | merge t items => t = type ∧ ∀ item ∈ items, item.id = id
  | evict t ids => t = type ∧ ∀ other ∈ ids, other = id

/-- The write has only attributes that are read back from their text. -/
def Readable : Write → Prop
  | merge _ items => ∀ item ∈ items, item.attributes.Readable
  | evict _ _ => True

end Write

namespace DirectCache

variable {α β : Type}

/-- Carries out an operation on a direct cache: its result, and the cache afterwards. -/
def on (a : ExceptT DomainError (StateM DirectCache) α) (d : DirectCache) :
    Except DomainError α × DirectCache := a.run d

/-- After an operation that succeeds the next goes on from what it has left. -/
theorem on_bind_ok {a : ExceptT DomainError (StateM DirectCache) α} {d d' : DirectCache} {x : α}
    (f : α → ExceptT DomainError (StateM DirectCache) β) (h : on a d = (.ok x, d')) :
    on (a >>= f) d = on (f x) d' := by
  show ExceptT.bindCont f (on a d).1 (on a d).2 = _
  rw [h]
  rfl

end DirectCache

namespace Write

variable (c : KeyValueCache)

/-- What every write of a history keeps up holds of the store after the history. -/
theorem performAll_on {P : Store.Memory → Prop} {history : List Write}
    (hstep : ∀ write ∈ history, ∀ m, P m →
      ∃ m', KeyValueCache.Action.on Store.Memory.serve (write.perform c.writer) m = (.ok (), m') ∧
        P m')
    {m : Store.Memory} (h : P m) :
    ∃ m', KeyValueCache.Action.on Store.Memory.serve (performAll c.writer history) m =
      (.ok (), m') ∧ P m' := by
  induction history generalizing m with
  | nil => exact ⟨m, rfl, h⟩
  | cons write rest ih =>
    obtain ⟨m₁, hwrite, hm₁⟩ := hstep write (by simp) m h
    obtain ⟨m', hrest, hm'⟩ := ih (fun w hw => hstep w (by simp [hw])) hm₁
    refine ⟨m', ?_, hm'⟩
    rw [performAll, KeyValueCache.Action.on_bind_ok _ _ hwrite, hrest]

/-- A relation that every write of a history keeps up holds of the two caches after the history. -/
theorem performAll_simulates {R : Store.Memory → DirectCache → Prop} {history : List Write}
    (hstep : ∀ write ∈ history, ∀ m d, R m d →
      ∃ m' d', KeyValueCache.Action.on Store.Memory.serve (write.perform c.writer) m =
          (.ok (), m') ∧
        DirectCache.on (write.perform DirectCache.writer) d = (.ok (), d') ∧ R m' d')
    {m : Store.Memory} {d : DirectCache} (h : R m d) :
    ∃ m' d', KeyValueCache.Action.on Store.Memory.serve (performAll c.writer history) m =
        (.ok (), m') ∧
      DirectCache.on (performAll DirectCache.writer history) d = (.ok (), d') ∧ R m' d' := by
  induction history generalizing m d with
  | nil => exact ⟨m, d, rfl, rfl, h⟩
  | cons write rest ih =>
    obtain ⟨m₁, d₁, hm, hd, h₁⟩ := hstep write (by simp) m d h
    obtain ⟨m', d', hm', hd', h'⟩ := ih (fun w hw => hstep w (by simp [hw])) h₁
    refine ⟨m', d', ?_, ?_, h'⟩
    · rw [performAll, KeyValueCache.Action.on_bind_ok _ _ hm, hm']
    · rw [performAll, DirectCache.on_bind_ok _ hd, hd']

end Write

end EntityCache
