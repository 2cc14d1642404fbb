import EntityCache.Text.Quoted

/-!
# Failures and their wording

`StoreError` is what a backing store or a lock service reports, `DomainError` what an operation of
a cache or a scheduler reports; a cache turns every store error into `storeUnavailable`.
`CallbackError` is the failure of a callback around one execution.  A failure that passes through
several hands is an `ErrorChain`: its messages, outermost first.
-/

namespace EntityCache

/-- A failure of a backing store. -/
inductive StoreError where
  | connection (detail : String)
  | protocol (detail : String)
  | query (detail : String)
deriving DecidableEq, Repr

namespace StoreError

/-- The text of a store error. -/
def message : StoreError → String
  | connection detail => "Connection error: " ++ detail
  | protocol detail => "Protocol error: " ++ detail
  | query detail => "Query error: " ++ detail

/-- The detail of a query on a database that has been closed. -/
def poolClosed : String := "attempted to acquire a connection on a closed pool"

end StoreError

/-- A failure of a cache or of a cycle. -/
inductive DomainError where
  | serialization (detail : String)
  | storeUnavailable (detail : String)
  | lockLost (agent : String)
  | identityUnresolved (detail : String)
  | invalidType (type : String)
  | invalidPattern (detail : String)
deriving DecidableEq, Repr

namespace DomainError

/-- The text of a domain error. -/
def message : DomainError → String
  | serialization detail => "Serialization error: " ++ detail
  | storeUnavailable detail => "Store unavailable: " ++ detail
  | lockLost agent => "Lock lost during execution of agent " ++ agent
  | identityUnresolved detail => "Node identity unresolved: " ++ detail
  | invalidType type => "Invalid type name: " ++ Text.quote type
  | invalidPattern detail => "Invalid identifier pattern: " ++ detail

/-- How a cache reports a failure of its store. -/
def ofStoreError (e : StoreError) : DomainError := storeUnavailable e.message

end DomainError

/-- The messages of a failure, outermost first. -/
abbrev ErrorChain := List String

/-- The callbacks around one execution of an agent. -/
inductive Callback where
  | started
  | completed
  | failed
deriving DecidableEq, Repr

/-- The name of a callback in messages. -/
def Callback.name : Callback → String
  | started => "execution_started"
  | completed => "execution_completed"
  | failed => "execution_failed"

/-- A callback reported a failure of its own. -/
structure CallbackError where
  callback : Callback
  agent : String
  text : String
deriving DecidableEq, Repr

/-- The text of a callback error. -/
def CallbackError.message (e : CallbackError) : String :=
  "Instrumentation callback " ++ e.callback.name ++ " failed for agent " ++ e.agent ++ ": " ++ e.text

end EntityCache
