import EntityCache.Error
import EntityCache.Program

/-!
# Requests to a store

A store keeps strings and sets of strings, both by key; a key may name one of each.  `Store.Request`
lists what a store can be asked, `Store.Request.Answer` in which type it answers, and a program over
these requests is an operation that any store can carry out.
-/

namespace EntityCache

namespace Store

/-- A question to a store. -/
inductive Request where
  /-- The string of a key. -/
  | get (key : String)
  /-- Makes a string the value of a key. -/
  | set (key value : String)
  /-- The strings of several keys, one slot each. -/
  | mget (keys : List String)
  /-- Makes strings the values of keys, in order. -/
  | mset (entries : List (String × String))
  /-- Removes keys with their string and their set; answers how many of them were there. -/
  | del (keys : List String)
  /-- Adds members to a set; answers how many are new. -/
  | sadd (key : String) (members : List String)
  /-- Removes members from a set; answers how many were there. -/
  | srem (key : String) (members : List String)
  /-- The members of a set in order. -/
  | smembers (key : String)
deriving DecidableEq, Repr

/-- The kinds of requests. -/
inductive Operation where
  | get | set | mget | mset | del | sadd | srem | smembers
deriving DecidableEq, Repr

namespace Request

/-- The type in which a request is answered. -/
abbrev Answer : Request → Type
  | get _ => Option String
  | set _ _ => Unit
  | mget _ => List (Option String)
  | mset _ => Unit
  | del _ => Nat
  | sadd _ _ => Nat
  | srem _ _ => Nat
  | smembers _ => List String

/-- The kind of a request. -/
def operation : Request → Operation
  | get _ => .get
  | set _ _ => .set
  | mget _ => .mget
  | mset _ => .mset
  | del _ => .del
  | sadd _ _ => .sadd
  | srem _ _ => .srem
  | smembers _ => .smembers

/-- An answer, or the store's failure. -/
abbrev Reply (r : Request) : Type := Except StoreError r.Answer

end Request

/-- A store program: requests one after another, each of which may fail. -/
abbrev Calls (α : Type) := Program Request Request.Reply α

/-- The kinds of requests, in the order in which they are counted. -/
def Operation.all : List Operation := [get, set, mget, mset, del, sadd, srem, smembers]

/-- The name of a kind of request. -/
def Operation.name : Operation → String
  | get => "get"
  | set => "set"
  | mget => "mget"
  | mset => "mset"
  | del => "del"
  | sadd => "sadd"
  | srem => "srem"
  | smembers => "smembers"

end Store

end EntityCache
