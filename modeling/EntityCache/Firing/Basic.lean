import EntityCache.Error
import EntityCache.Program

/-!
# One firing of an agent

A firing calls an agent's callbacks and its execution: `started`, the execution, `completed`, and
at the first failure `failed` in place of the rest.  Anything that is called may succeed, fail or
panic; a panic in the first three counts as a failure.  If `failed` itself fails, or panics, the
firing cannot be reported.

`attempt` is the part up to the first failure, `plain` a whole firing without locks.
-/

namespace EntityCache

namespace Firing

/-- How something that is called ends.  The message of a panic may be missing. -/
inductive Reaction (ε : Type) where
  | ok
  | fails (error : ε)
  | panics (message : Option String)
deriving DecidableEq, Repr

/-- The calls of a firing.  An execution is a call of two requests: its begin and its end. -/
inductive AgentRequest where
  | started
  | execute
  | finish
  | completed
  | failed (error : ErrorChain)
deriving DecidableEq, Repr

/-- The type in which a call is answered. -/
abbrev AgentRequest.Reply : AgentRequest → Type
  | started => Reaction String
  | execute => Unit
  | finish => Reaction ErrorChain
  | completed => Reaction String
  | failed _ => Reaction String

/-- Why a firing did not execute its agent. -/
inductive SkipReason where
  | identityUnresolved
  | lockHeld
  | lockServiceError (message : String)
deriving DecidableEq, Repr

/-- The text of a reason. -/
def SkipReason.message : SkipReason → String
  | identityUnresolved => "node identity unresolved"
  | lockHeld => "lock held by another node"
  | lockServiceError e => "lock service error: " ++ e

/-- The result of a firing that could be reported. -/
inductive Outcome where
  | completed
  | failed (error : ErrorChain)
  | skipped (reason : SkipReason)
deriving DecidableEq, Repr

/-- How a firing ends. -/
inductive Ended where
  | outcome (outcome : Outcome)
  /-- The callback for failures failed itself. -/
  | unreported (error : CallbackError)
  /-- The callback for failures panicked. -/
  | panicked
deriving DecidableEq, Repr

/-- The error that stands for a panic. -/
def panicError (agent : String) (message : Option String) : ErrorChain :=
  ["Agent " ++ agent ++ " panicked: " ++ message.getD "unknown panic"]

/-- The error that stands for a callback that failed. -/
def callbackError (callback : Callback) (agent text : String) : ErrorChain :=
  [(CallbackError.mk callback agent text).message]

/-- Calls `started`, the execution and `completed`, up to the first failure. -/
def attempt (agent : String) :
    Program AgentRequest AgentRequest.Reply (Except ErrorChain Unit) :=
  .ask .started fun
    | .fails text => .done (.error (callbackError .started agent text))
    | .panics message => .done (.error (panicError agent message))
    | .ok => .ask .execute fun _ => .ask .finish fun
      | .fails error => .done (.error error)
      | .panics message => .done (.error (panicError agent message))
      | .ok => .ask .completed fun
        | .fails text => .done (.error (callbackError .completed agent text))
        | .panics message => .done (.error (panicError agent message))
        | .ok => .done (.ok ())

/-- How a firing ends whose failure has been reported, after the answer of `failed`. -/
def reported (agent : String) (error : ErrorChain) : Reaction String → Ended
  | .ok => .outcome (.failed error)
  | .fails text => .unreported ⟨.failed, agent, text⟩
  | .panics _ => .panicked

/-- One firing without locks. -/
def plain (agent : String) : Program AgentRequest AgentRequest.Reply Ended :=
  (attempt agent).bind fun
    | .ok _ => .done (.outcome .completed)
    | .error error => .ask (.failed error) fun answer => .done (reported agent error answer)

end Firing

end EntityCache
