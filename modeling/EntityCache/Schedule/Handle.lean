import EntityCache.Schedule.Runner

/-!
# Handles

A `Handle` is what the holder of a schedule knows of it: the agent, when its task ends, and how.
Cancelling a task that has not ended makes it end at once; on one that has ended it has no effect.
-/

namespace EntityCache

namespace Schedule

/-- A handle to a task that ends at a known moment. -/
structure Handle where
  agent : String
  endsAt : Nat
  exit : Exit
deriving DecidableEq, Repr

namespace Handle

/-- Whether the task has ended by `now`. -/
def isFinished (now : Nat) (h : Handle) : Bool := h.endsAt ≤ now

/-- Cancels the task at `now`. -/
def cancel (now : Nat) (h : Handle) : Handle :=
  if h.isFinished now then h else { h with endsAt := now, exit := .cancelled }

end Handle

end Schedule

end EntityCache
