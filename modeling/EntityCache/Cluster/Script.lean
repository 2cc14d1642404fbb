import EntityCache.Firing.Basic

/-!
# Scripts of agents

A `Script` says how the executions and callbacks of an agent turn out, call by call; the last entry
of a list repeats, and an empty list means success.  It counts the calls.
-/

namespace EntityCache

namespace Cluster

open Firing

/-- One execution: how long it takes, and how it ends. -/
structure Run where
  sleep : Nat := 0
  reaction : Reaction ErrorChain := .ok
deriving DecidableEq, Repr

/-- How the calls of an agent turn out. -/
structure Script where
  runs : List Run := []
  onStarted : List (Reaction String) := []
  onCompleted : List (Reaction String) := []
  onFailed : List (Reaction String) := []
  executions : Nat := 0
  startedCalls : Nat := 0
  completedCalls : Nat := 0
  failedCalls : Nat := 0
deriving DecidableEq, Repr

namespace Script

/-- The entry of a call, the last one past the end. -/
def entry {α : Type} (fallback : α) (entries : List α) (call : Nat) : α :=
  (entries[call]? <|> entries.getLast?).getD fallback

/-- The execution of a number. -/
def run (s : Script) (n : Nat) : Run := entry {} s.runs n

/-- The number of the next execution, which begins now. -/
def execute (s : Script) : Nat × Script := (s.executions, { s with executions := s.executions + 1 })

/-- How the next call of `started` ends. -/
def started (s : Script) : Reaction String × Script :=
  (entry .ok s.onStarted s.startedCalls, { s with startedCalls := s.startedCalls + 1 })

/-- How the next call of `completed` ends. -/
def completed (s : Script) : Reaction String × Script :=
  (entry .ok s.onCompleted s.completedCalls, { s with completedCalls := s.completedCalls + 1 })

/-- How the next call of `failed` ends. -/
def failed (s : Script) : Reaction String × Script :=
  (entry .ok s.onFailed s.failedCalls, { s with failedCalls := s.failedCalls + 1 })

end Script

end Cluster

end EntityCache
