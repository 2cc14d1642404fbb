import EntityCache.Proofs.Cache.Readability

/-!
# A cache does the same on a store in memory and on a database

The two stores differ in one thing, the empty set that a store in memory keeps where nothing has
been added to a set.  No operation of a cache adds nothing to a set: a merge names the members that
it has written, and leaves the index alone unless there is a name to add.  So a sequence of
operations has the same results on both, refusals and the order of lists included
(`results_memory_eq_database`).
-/

namespace EntityCache

namespace KeyValueCache

/-- An operation of a cache, with its arguments. -/
inductive Operation where
  | merge (type : String) (item : Item)
  | mergeAll (type : String) (items : List Item)
  | evict (type id : String)
  | evictAll (type : String) (ids : List String)
  | get (type id : String)
  | getAll (type : String)
  | getAllByIds (type : String) (ids : List String)
  | getIdentifiers (type : String)
  | filterIdentifiers (type glob : String)

/-- What an operation gives when it does not fail. -/
abbrev Operation.Result : Operation → Type
  | merge .. | mergeAll .. | evict .. | evictAll .. => Unit
  | get .. => Option Entity
  | getAll _ | getAllByIds .. => List Entity
  | getIdentifiers _ | filterIdentifiers .. => List String

variable (c : KeyValueCache) {σ : Type} {m : Store.Memory} {d : Store.Database}

/-- An operation as store calls. -/
def Operation.action : (op : Operation) → Action op.Result
  | merge type item => c.writer.merge type item
  | mergeAll type items => c.writer.mergeAll type items
  | evict type id => c.writer.evict type id
  | evictAll type ids => c.writer.evictAll type ids
  | get type id => c.reader.get type id
  | getAll type => c.reader.getAll type
  | getAllByIds type ids => c.reader.getAllByIds type ids
  | getIdentifiers type => c.reader.getIdentifiers type
  | filterIdentifiers type glob => c.reader.filterIdentifiers type glob

/-- Operations with their results, each carried out on what the ones before have left. -/
def results (serve : (r : Store.Request) → σ → r.Reply × σ) :
    List Operation → σ → List ((op : Operation) × Except DomainError op.Result)
  | [], _ => []
  | op :: rest, s =>
    ⟨op, (Action.on serve (op.action c) s).1⟩ ::
      results serve rest (Action.on serve (op.action c) s).2

/-! ## No operation adds nothing -/

/-- The type that an operation is on. -/
def Operation.type : Operation → String
  | merge type _ | mergeAll type _ | evict type _ | evictAll type _ | get type _ | getAll type
  | getAllByIds type _ | getIdentifiers type | filterIdentifiers type _ => type

/-- An operation makes requests of its type. -/
theorem Operation.asks_action (op : Operation) : (op.action c).Asks (c.Makes op.type) := by
  cases op with
  | merge type item => exact asks_mergeAll type [item]
  | mergeAll type items => exact asks_mergeAll type items
  | evict type id => exact asks_evictAll type [id]
  | evictAll type ids => exact asks_evictAll type ids
  | get type id => exact (asks_get type id).mono fun _ h => .look h
  | getAll type => exact (asks_getAll type).mono fun _ h => .look h
  | getAllByIds type ids => exact (asks_getAllByIds type ids).mono fun _ h => .look h
  | getIdentifiers type => exact (asks_getIdentifiers type).mono fun _ h => .look h
  | filterIdentifiers type glob =>
    exact (asks_filterIdentifiers type glob).mono fun _ h => .look h

/-- The ids are looked up and nothing is added. -/
theorem adds_getIdentifiers (type : String) : Action.Adds (c.reader.getIdentifiers type) :=
  (asks_getIdentifiers type).mono fun _ h => h.adds

/-- No operation of a cache adds an empty list of members. -/
theorem Operation.adds_action (op : Operation) : (op.action c).Adds :=
  (op.asks_action c).mono fun _ h => h.adds

/-! ## The same results -/

/-- One operation has the same result on two stores that cannot be told apart, and leaves two such
stores. -/
theorem Operation.on_alike (op : Operation) (h : Store.Alike m d) :
    (Action.on Store.Memory.serve (op.action c) m).1 =
        (Action.on Store.Database.serve (op.action c) d).1 ∧
      Store.Alike (Action.on Store.Memory.serve (op.action c) m).2
        (Action.on Store.Database.serve (op.action c) d).2 :=
  h.run (op.adds_action c)

/-- Stores that are alike give every sequence of operations the same results. -/
theorem results_alike (h : Store.Alike m d) (ops : List Operation) :
    c.results Store.Memory.serve ops m = c.results Store.Database.serve ops d := by
  induction ops generalizing m d with
  | nil => rfl
  | cons op rest ih =>
    obtain ⟨hresult, halike⟩ := op.on_alike c h
    rw [results, results, hresult, ih halike]

/-- A cache on an empty store in memory, and one with the same prefix on an empty database, give the
same result to every operation of any sequence. -/
theorem results_memory_eq_database (ops : List Operation) :
    c.results Store.Memory.serve ops {} = c.results Store.Database.serve ops {} :=
  c.results_alike Store.alike_empty ops

end KeyValueCache

end EntityCache
