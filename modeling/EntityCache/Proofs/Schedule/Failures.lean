import EntityCache.Proofs.Schedule.Registry

/-!
# Failures that a task learns of

A cycle whose failure could not be reported leaves that with its task when it ends.  What a task has
been left stays there until the task comes to run; nothing else that a runner goes through adds to
it or takes from it.  A task that has been left a failure, and has not been told to end before, ends
with the first one.  It takes its own entry out of the registry and does not fire again; other tasks
and their entries are as they were.
-/

namespace EntityCache

namespace Schedule

namespace Runner

/-- The failures that a task has been left. -/
def failuresOf (t : Nat) (r : Runner) : List CallbackError := (r.tasks[t]?).elim [] (·.failures)

variable {r r' : Runner} {t t' : Nat} {agent : String} {task : Task} {error : CallbackError}
  {rest : List CallbackError}

theorem failuresOf_eq (htask : r.tasks[t]? = some task) : r.failuresOf t = task.failures := by
  simp [failuresOf, htask]

/-- A turn that leaves the failures of each task alone leaves those of the scheduler. -/
theorem Turns.failuresOf_eq {g : Nat → Task → Task} (h : Turns g r r')
    (hg : ∀ task, (g t task).failures = task.failures) : r'.failuresOf t = r.failuresOf t := by
  cases htask : r.tasks[t]? <;> simp [failuresOf, h.tasks, htask, hg]

/-! ## Who leaves failures -/

/-- A withdrawal reports nothing. -/
theorem failuresOf_withdraw (ids : List Nat) (registry : Std.ExtTreeMap String Nat) (t : Nat)
    (r : Runner) : (r.withdraw ids registry).failuresOf t = r.failuresOf t := by
  refine (turns_withdraw ids registry r).failuresOf_eq fun task => ?_
  split
  · unfold Task.abort
    split <;> rfl
  · rfl

/-- A task starts without failures. -/
theorem failuresOf_add (agent : String) (job due t : Nat) (r : Runner) :
    (r.add agent job due).failuresOf t = r.failuresOf t := by
  rw [failuresOf, failuresOf, getElem?_add]
  split
  case isTrue hnew => simp [hnew]
  case isFalse => rfl

/-- No command reports a failure or takes one back. -/
theorem failuresOf_command (command : Command) (t : Nat) (r : Runner) :
    (command.apply r).failuresOf t = r.failuresOf t := by
  cases command with
  | schedule agent job due =>
    rw [Command.apply, schedule_eq, failuresOf_withdraw, failuresOf_add]
  | unschedule agent => rw [Command.apply, unschedule_eq, failuresOf_withdraw]
  | cancel id => exact failuresOf_withdraw [id] r.registry t r
  | shutdown => rw [Command.apply, shutdown_eq, failuresOf_withdraw]

/-- The end of a task leaves the reports that it has not read. -/
theorem failuresOf_exitTask (id t : Nat) (r : Runner) :
    (r.exitTask id).failuresOf t = r.failuresOf t := by
  rcases exitTask_cases id r with heq | ⟨task, exit, -, heq⟩ <;> rw [heq]
  exact (turns_exit id exit r).failuresOf_eq fun task => by split <;> rfl

/-- A firing reports nothing. -/
theorem failuresOf_fire (id now t : Nat) (r : Runner) :
    (r.fire id now).failuresOf t = r.failuresOf t := by
  rcases fire_cases id now r with heq | ⟨busy, waiting, heq⟩ <;> rw [heq]
  exact (turns_fire id (now + r.interval) busy r).failuresOf_eq fun task => by split <;> rfl

/-- A grant reports nothing. -/
theorem failuresOf_grant {id : Nat} (hgrant : r.grant? = some (id, r')) (t : Nat) :
    r'.failuresOf t = r.failuresOf t := by
  obtain ⟨rest, -, -, rfl⟩ := grant?_eq_some.1 hgrant
  rfl

/-- A cycle that ends leaves its failure, if it has one, with its own task. -/
theorem failuresOf_finish (hruns : t ∈ r.running) (hagent : r.agentOf? t = some agent)
    (failure : Option CallbackError) (t' : Nat) :
    (r.finish t failure).failuresOf t' =
      r.failuresOf t' ++ if t = t' then failure.toList else [] := by
  have hturns := turns_finish t failure r
  obtain ⟨task, htask, -⟩ := Option.map_eq_some_iff.1 hagent
  rw [finish, if_pos hruns]
  by_cases heq : t = t'
  · subst heq
    simp [failuresOf, hturns.tasks, htask]
  · rw [if_neg heq, List.append_nil]
    exact hturns.failuresOf_eq fun task => by rw [if_neg heq]

/-! ## What a task does about them -/

/-- Tasks that do not end are as they were. -/
theorem getElem?_exitTask_of_ne (hne : t ≠ t') (r : Runner) :
    (r.exitTask t).tasks[t']? = r.tasks[t']? := by
  rcases exitTask_cases t r with heq | ⟨task, exit, -, heq⟩ <;> rw [heq]
  exact ((turns_exit t exit r).tasks t').trans (by simp [hne])

/-- A task that still fires and has been left nothing goes on. -/
theorem exitTask_of_silent (htask : r.tasks[t]? = some task) (hlive : task.isLive = true)
    (hsilent : task.failures = []) : r.exitTask t = r := by
  obtain ⟨haborted, hexit⟩ : task.aborted = false ∧ task.exit = none := by
    simpa [Task.isLive] using hlive
  have hending : Task.ending? task = none := by simp [Task.ending?, haborted, hexit, hsilent]
  simp [exitTask, htask, hending]

/-- A task that still fires and has been left a failure ends with it. -/
theorem exit?_exitTask (htask : r.tasks[t]? = some task) (hlive : task.isLive = true)
    (hfailures : task.failures = error :: rest) :
    (r.exitTask t).exit? t = some (.callbackFailed error) := by
  obtain ⟨haborted, hexit⟩ : task.aborted = false ∧ task.exit = none := by
    simpa [Task.isLive] using hlive
  have hending : Task.ending? task = some (.callbackFailed error) := by
    simp [Task.ending?, haborted, hexit, hfailures]
  have hended : (r.modifyTask t fun task =>
      { task with exit := some (.callbackFailed error) }).exit? t =
        some (.callbackFailed error) := by
    simp [exit?, getElem?_modifyTask, htask]
  simp only [exitTask, htask, hending]
  split <;> exact hended

/-- A task that has ended does not fire. -/
theorem not_live_of_exit? {exit : Exit} (h : r.exit? t = some exit) : ¬r.Live t := by
  rintro ⟨task, htask, hlive⟩
  obtain ⟨task', htask', hexit⟩ := Option.bind_eq_some_iff.1 h
  obtain rfl := Option.some.inj (htask.symm.trans htask')
  simp [Task.isLive, hexit] at hlive

/-- The agent of a task that ends while it fires has no schedule any more. -/
theorem not_mem_types_exitTask (h : r.Current) (htask : r.tasks[t]? = some task)
    (hlive : task.isLive = true) (hfailures : task.failures = error :: rest) :
    task.agent ∉ (r.exitTask t).types := by
  have hexit := exit?_exitTask htask hlive hfailures
  have hentry := h.live htask hlive
  rw [mem_types]
  rintro ⟨t', hentry'⟩
  rcases exitTask_cases t r with heq | ⟨ended, exit, hended, heq⟩
  · -- the task has not ended before
    rw [heq] at hexit
    exact not_live_of_exit? hexit ⟨task, htask, hlive⟩
  · obtain rfl : task = ended := Option.some.inj (htask.symm.trans hended)
    rw [heq] at hentry'
    simp [hentry] at hentry'

end Runner

end Schedule

end EntityCache
