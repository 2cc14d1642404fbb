import EntityCache.Firing.Basic
import EntityCache.Identity.Resolver

/-!
# A firing under a lock

On a node that shares its agents with others a firing executes only while it holds the agent's
lock.  `Firing.guarded` resolves the node's identity, marks the agent as active on this node, takes
the lock, makes the attempt, releases the lock and only then reports a failure; the mark is taken
back last.  While it holds the lock a heartbeat extends it; once that fails, a guarded call is
answered with `none` and the attempt is given up.
-/

namespace EntityCache

namespace Firing

/-- The requests of a firing on a node. -/
inductive Request where
  /-- A request to the node's resolver. -/
  | resolve (q : Identity.Request)
  /-- Marks the agent as active on the node; `false` if it is already. -/
  | enter
  /-- Takes the mark back. -/
  | leave
  /-- Takes the agent's lock, and starts its heartbeat if it is granted. -/
  | acquire (owner : String)
  /-- Stops the heartbeat and releases the agent's lock. -/
  | release (owner : String)
  /-- A call that nothing can interrupt. -/
  | call (r : AgentRequest)
  /-- A call that is given up, with `none`, once the lock is lost. -/
  | guarded (r : AgentRequest)

/-- The type in which a request is answered. -/
abbrev Request.Reply : Request → Type
  | resolve q => q.Reply
  | enter => Bool
  | leave => Unit
  | acquire _ => Except StoreError Bool
  | release _ => Unit
  | call r => r.Reply
  | guarded r => Option r.Reply

/-- The rest of a firing. -/
abbrev Steps (α : Type) := Program Request Request.Reply α

/-- Makes the calls of an attempt as long as the lock is not lost. -/
def whileHeld (lost : ErrorChain) :
    Program AgentRequest AgentRequest.Reply (Except ErrorChain Unit) → Steps (Except ErrorChain Unit)
  | .done result => .done result
  | .ask r next => .ask (.guarded r) fun
    | some reply => whileHeld lost (next reply)
    | none => .done (.error lost)

/-- Ends a firing by taking its mark back. -/
def leaving (ended : Ended) : Steps Ended := .ask .leave fun _ => .done ended

/-- The part of a firing that holds the lock. -/
def holding (agent owner : String) : Steps Ended :=
  (whileHeld [(DomainError.lockLost agent).message] (attempt agent)).bind fun result =>
    .ask (.release owner) fun _ =>
      match result with
      | .ok _ => leaving (.outcome .completed)
      | .error error =>
        .ask (.call (.failed error)) fun answer => leaving (reported agent error answer)

/-- The part of a firing after its identity is known. -/
def entering (agent : String) (identity : Identity) : Steps Ended :=
  if !identity.valid then .done (.outcome (.skipped .identityUnresolved))
  else .ask .enter fun
    | false => .done (.outcome (.skipped .lockHeld))
    | true => .ask (.acquire identity.value) fun
      | .ok true => holding agent identity.value
      | .ok false => leaving (.outcome (.skipped .lockHeld))
      | .error e => leaving (.outcome (.skipped (.lockServiceError e.message)))

/-- One firing on a node whose process is called `process`. -/
def guarded (process agent : String) : Steps Ended :=
  ((Identity.resolve process).mapRequests .resolve fun _ reply => reply).bind (entering agent)

/-- One firing without locks, as a firing on a node. -/
def unguarded (agent : String) : Steps Ended := (plain agent).mapRequests .call fun _ reply => reply

end Firing

end EntityCache
