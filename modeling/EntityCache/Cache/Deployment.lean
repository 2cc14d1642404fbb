import EntityCache.Cache.Composite
import EntityCache.Cache.Direct
import EntityCache.Cache.KeyValue
import EntityCache.Store.Observed

/-!
# Caches over shared stores

A `Deployment` holds observed stores and the contents of direct caches, each by name.  A
`CacheHandle` says what a cache of the deployment is made of, and gives its operations as changes of
the deployment.  A request to a store that is not there fails.
-/

namespace EntityCache

/-- Stores and direct caches by name. -/
structure Deployment where
  stores : Std.ExtTreeMap String Store.Observed := ∅
  direct : Std.ExtTreeMap String DirectCache := ∅

/-- A cache of a deployment. -/
inductive CacheHandle where
  /-- A key-value cache on the store of a name. -/
  | keyValue (store : String) (cache : KeyValueCache)
  /-- The direct cache of a name. -/
  | direct (name : String)
  /-- A view over other caches, in order of precedence. -/
  | composite (sources : List CacheHandle)

namespace Deployment

/-- Lets the store of a name answer a request. -/
def serve (store : String) (r : Store.Request) (d : Deployment) : r.Reply × Deployment :=
  match d.stores[store]? with
  | none => (.error (.connection ("no store named " ++ store)), d)
  | some observed =>
    let (reply, observed) := observed.serve r
    (reply, { d with stores := d.stores.insert store observed })

/-- Runs store calls on the store of a name. -/
def onStore (store : String) {α : Type} (calls : Store.Calls α) : StateM Deployment α :=
  fun d => calls.run (serve store) d

/-- Runs an operation on the direct cache of a name. -/
def onDirect (name : String) {α : Type} (op : StateM DirectCache α) : StateM Deployment α :=
  fun d =>
    let (a, cache) := op (d.direct.getD name {})
    (a, { d with direct := d.direct.insert name cache })

end Deployment

namespace CacheHandle

mutual

/-- The read operations of a cache. -/
def reader : CacheHandle → Reader (StateM Deployment)
  | keyValue store cache => cache.reader.lift (Deployment.onStore store)
  | direct name => DirectCache.reader.lift (Deployment.onDirect name)
  | composite sources => Reader.composite (readers sources)

/-- The read operations of several caches. -/
def readers : List CacheHandle → List (Reader (StateM Deployment))
  | [] => []
  | source :: rest => reader source :: readers rest

end

/-- The write operations of a cache; a view has none. -/
def writer? : CacheHandle → Option (Writer (StateM Deployment))
  | keyValue store cache => some (cache.writer.lift (Deployment.onStore store))
  | direct name => some (DirectCache.writer.lift (Deployment.onDirect name))
  | composite _ => none

mutual

/-- Whether a direct cache is among those that the cache is made of. -/
def readsDirect : CacheHandle → Bool
  | keyValue _ _ => false
  | direct _ => true
  | composite sources => anyDirect sources

/-- Whether one of several caches reads a direct cache. -/
def anyDirect : List CacheHandle → Bool
  | [] => false
  | source :: rest => readsDirect source || anyDirect rest

end

end CacheHandle

end EntityCache
