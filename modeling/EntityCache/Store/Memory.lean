import EntityCache.Store.Request
import EntityCache.Entity.Basic

/-!
# A store in memory

`Store.Memory` keeps its strings and its sets in two maps and never fails.  Adding nothing to a set
that is not there leaves an empty set behind, which counts as a key to be removed; removing the
last member of a set removes the set.
-/

namespace EntityCache

namespace Store

/-- Strings and sets by key. -/
structure Memory where
  strings : Std.ExtTreeMap String String := ∅
  sets : Std.ExtTreeMap String Names := ∅

namespace Memory

/-- Makes `value` the string of `key`. -/
def put (m : Memory) (key value : String) : Memory :=
  { m with strings := m.strings.insert key value }

/-- Whether there is a string or a set of this key. -/
def has (m : Memory) (key : String) : Bool := key ∈ m.strings || key ∈ m.sets

/-- Removes the string and the set of a key. -/
def drop (m : Memory) (key : String) : Memory :=
  { strings := m.strings.erase key, sets := m.sets.erase key }

/-- Removes keys one after another and counts those that were there. -/
def dropAll : List String → Memory → Nat × Memory
  | [], m => (0, m)
  | key :: rest, m =>
    let (n, after) := dropAll rest (m.drop key)
    (if m.has key then n + 1 else n, after)

/-- Adds members one after another and counts the new ones. -/
def addAll : List String → Names → Nat × Names
  | [], set => (0, set)
  | member :: rest, set =>
    let (n, after) := addAll rest (set.insert member)
    (if member ∈ set then n else n + 1, after)

/-- Removes members one after another and counts those that were there. -/
def removeAll : List String → Names → Nat × Names
  | [], set => (0, set)
  | member :: rest, set =>
    let (n, after) := removeAll rest (set.erase member)
    (if member ∈ set then n + 1 else n, after)

/-- The members of the set of a key. -/
def members (m : Memory) (key : String) : List String := (m.sets.getD key ∅).toList

/-- Answers a request. -/
def answer : (r : Request) → Memory → r.Answer × Memory
  | .get key, m => (m.strings[key]?, m)
  | .set key value, m => ((), m.put key value)
  | .mget keys, m => (keys.map fun key => m.strings[key]?, m)
  | .mset entries, m => ((), entries.foldl (fun m entry => m.put entry.1 entry.2) m)
  | .del keys, m => dropAll keys m
  | .sadd key members, m =>
    let (n, set) := addAll members (m.sets.getD key ∅)
    (n, { m with sets := m.sets.insert key set })
  | .srem key members, m =>
    match m.sets[key]? with
    | none => (0, m)
    | some set =>
      let (n, set) := removeAll members set
      (n, { m with sets := if set.isEmpty then m.sets.erase key else m.sets.insert key set })
  | .smembers key, m => (m.members key, m)

/-- Answers a request as a store, which this one does without ever failing. -/
def serve (r : Request) (m : Memory) : r.Reply × Memory :=
  let (a, m) := m.answer r
  (.ok a, m)

/-- The number of string keys. -/
def stringCount (m : Memory) : Nat := m.strings.size

end Memory

end Store

end EntityCache
