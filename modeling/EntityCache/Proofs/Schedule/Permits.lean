import EntityCache.Proofs.Schedule.Registry

/-!
# Permits

A cycle takes a permit when its turn comes and gives it back when it ends.  Whatever a runner goes
through, the permits that are free and those that running cycles hold are all that it was made with
(`Runner.length_running_add_available`): none is lost, and none is given out twice.

Under `OverlapPolicy.skip` a task is busy exactly as long as a cycle of its own waits or runs
(`Runner.busy_iff`), so that a task is not kept from firing by cycles that are over, nor by those of
other tasks.
-/

namespace EntityCache

namespace Schedule

namespace Runner

variable {r r' start : Runner} {t t' now : Nat}

/-! ## Free permits -/

/-- No permit changes hands. -/
structure Holds (r r' : Runner) : Prop where
  available : r'.available = r.available
  running : r'.running = r.running

/-- A withdrawal takes no permit and gives none back. -/
theorem holds_withdraw (ids : List Nat) (registry : Std.ExtTreeMap String Nat) (r : Runner) :
    Holds r (r.withdraw ids registry) := by
  rw [withdraw_eq]
  exact ⟨rfl, rfl⟩

/-- Commands leave the permits alone. -/
theorem holds_command (command : Command) (r : Runner) : Holds r (command.apply r) := by
  cases command with
  | schedule agent job due =>
    rw [Command.apply, schedule_eq]
    obtain ⟨havailable, hrunning⟩ := holds_withdraw r.registry[agent]?.toList
      (r.registry.insert agent r.tasks.length) (r.add agent job due)
    exact ⟨havailable, hrunning⟩
  | unschedule agent =>
    rw [Command.apply, unschedule_eq]
    exact holds_withdraw _ _ r
  | cancel id => exact holds_withdraw [id] r.registry r
  | shutdown =>
    rw [Command.apply, shutdown_eq]
    exact holds_withdraw _ _ r

/-- The end of a task leaves the permits of its cycles with them. -/
theorem holds_exitTask (id : Nat) (r : Runner) : Holds r (r.exitTask id) := by
  rcases exitTask_cases id r with heq | ⟨task, exit, -, heq⟩ <;> rw [heq] <;> exact ⟨rfl, rfl⟩

/-- A firing puts a cycle into the queue, which holds no permit. -/
theorem holds_fire (t now : Nat) (r : Runner) : Holds r (r.fire t now) := by
  rcases fire_cases t now r with heq | ⟨busy, waiting, heq⟩ <;> rw [heq] <;> exact ⟨rfl, rfl⟩

/-- The permits of a runner are as many as they were after any event. -/
theorem length_running_add_available_apply (e : Event) (r : Runner) :
    (e.apply r).running.length + (e.apply r).available = r.running.length + r.available := by
  have hkept (hholds : Holds r (e.apply r)) :
      (e.apply r).running.length + (e.apply r).available = r.running.length + r.available := by
    rw [hholds.running, hholds.available]
  -- only a grant takes a permit and only the end of a cycle gives one back
  cases e with
  | command command => exact hkept (holds_command command r)
  | exit id => exact hkept (holds_exitTask id r)
  | fire t now => exact hkept (holds_fire t now r)
  | grant =>
    cases hgrant : r.grant? with
    | none => simp [Event.apply, hgrant]
    | some granted =>
      obtain ⟨rest, -, hfree, hr'⟩ := grant?_eq_some.1 hgrant
      simp only [Event.apply, hgrant, Option.map_some, Option.getD_some, hr', List.length_cons]
      omega
  | finish t failure =>
    simp only [Event.apply, finish]
    split
    case isTrue hruns =>
      have hpos : 0 < r.running.length := List.length_pos_of_mem hruns
      simp only [List.length_erase_of_mem hruns]
      omega
    case isFalse => rfl

/-- Over any events, the permits held and those free add up to the same number. -/
theorem length_running_add_available_after (events : List Event) (r : Runner) :
    (r.after events).running.length + (r.after events).available =
      r.running.length + r.available := by
  induction events generalizing r with
  | nil => rfl
  | cons e events ih => exact (ih (e.apply r)).trans (length_running_add_available_apply e r)

/-- Permits are neither lost nor made: they are free, or held by cycles that run. -/
theorem length_running_add_available {s : SchedulerSettings} (hnew : new? s = some start)
    (events : List Event) :
    (start.after events).running.length + (start.after events).available = permits s := by
  rw [length_running_add_available_after, eq_of_new hnew]
  exact Nat.zero_add _

/-! ## Busy tasks -/

/-- A turn that leaves the guards alone changes no task from busy to idle or back. -/
theorem Turns.busy_iff {g : Nat → Task → Task} (h : Turns g r r')
    (hg : ∀ task, (g t task).busy = task.busy) : r'.Busy t ↔ r.Busy t := by
  refine ⟨fun ⟨task', htask', hbusy⟩ => ?_, h.busy hg⟩
  rw [h.tasks, Option.map_eq_some_iff] at htask'
  obtain ⟨task, htask, rfl⟩ := htask'
  exact ⟨task, htask, by rwa [hg] at hbusy⟩

/-- A withdrawal leaves the guards alone. -/
theorem busy_withdraw (ids : List Nat) (registry : Std.ExtTreeMap String Nat) :
    (r.withdraw ids registry).Busy t ↔ r.Busy t :=
  (turns_withdraw ids registry r).busy_iff fun task => by split <;> simp

/-- A new task is not busy. -/
theorem busy_of_add {agent : String} {job due : Nat} (h : (r.add agent job due).Busy t) :
    r.Busy t := by
  obtain ⟨task, htask, hbusy⟩ := h
  rw [getElem?_add] at htask
  split at htask
  case isTrue =>
    obtain rfl := Option.some.inj htask
    cases hbusy
  case isFalse => exact ⟨task, htask, hbusy⟩

/-- No command makes a task busy. -/
theorem busy_of_command {command : Command} (h : (command.apply r).Busy t) : r.Busy t := by
  cases command with
  | schedule agent job due =>
    rw [Command.apply, schedule_eq] at h
    exact busy_of_add ((busy_withdraw _ _).1 h)
  | unschedule agent =>
    rw [Command.apply, unschedule_eq] at h
    exact (busy_withdraw _ _).1 h
  | cancel id => exact (busy_withdraw [id] r.registry).1 h
  | shutdown =>
    rw [Command.apply, shutdown_eq] at h
    exact (busy_withdraw _ _).1 h

/-- A task that ends does not become busy. -/
theorem busy_of_exitTask {id : Nat} (h : (r.exitTask id).Busy t) : r.Busy t := by
  rcases exitTask_cases id r with heq | ⟨task, exit, -, heq⟩
  · rwa [heq] at h
  · rw [heq] at h
    exact ((turns_exit id exit r).busy_iff fun task => by split <;> rfl).1 h

/-- A task that is busy after a firing was busy before, or has a cycle in the queue now. -/
theorem busy_of_fire (hskips : r.policy = .skip) (h : (r.fire t now).Busy t') :
    r.Busy t' ∨ t' ∈ (r.fire t now).waiting := by
  cases hstarts : r.started? t now with
  | none =>
    rcases fire_of_idle hskips hstarts with heq | heq <;> rw [heq] at h
    · exact .inl h
    · exact .inl (((turns_fire t _ (·.busy) r).busy_iff fun task => by split <;> rfl).1 h)
  | some agent =>
    by_cases heq : t = t'
    · rw [fire_of_started hskips hstarts]
      exact .inr (by simp [heq])
    · rw [fire_of_started hskips hstarts] at h
      exact .inl (((turns_fire t _ (fun _ => true) r).busy_iff fun task => if_neg heq ▸ rfl).1 h)

/-- The end of a cycle makes its own task idle and leaves the others as they are. -/
theorem busy_of_finish {failure : Option CallbackError} (hruns : t ∈ r.running)
    (h : (r.finish t failure).Busy t') : t' ≠ t ∧ r.Busy t' := by
  have hturns := turns_finish t failure r
  rw [finish, if_pos hruns] at h
  by_cases heq : t = t'
  · subst heq
    obtain ⟨task', htask', hbusy⟩ := h
    rw [hturns.tasks, Option.map_eq_some_iff] at htask'
    obtain ⟨task, -, rfl⟩ := htask'
    simp at hbusy
  · exact ⟨Ne.symm heq, (hturns.busy_iff fun task => by rw [if_neg heq]).1 h⟩

/-- The invariant of busy tasks under `OverlapPolicy.skip`: each has exactly one cycle that waits or
runs, and no other task has one. -/
structure Minded (r : Runner) : Prop extends Guarded r where
  underway : ∀ {t : Nat}, r.Busy t → t ∈ r.waiting ++ r.running

/-- Every event keeps the guard. -/
theorem Guarded.apply (h : r.Guarded) (e : Event) : (e.apply r).Guarded := by
  cases e with
  | command command => exact h.command command
  | exit id => exact h.exitTask id
  | fire t now => exact h.fire t now
  | grant =>
    cases hgrant : r.grant? with
    | none => simpa [Event.apply, hgrant] using h
    | some granted => simpa [Event.apply, hgrant] using h.grant hgrant
  | finish t failure => exact h.finish t failure

/-- Every event keeps busy tasks in step with cycles.  It is the step of `Minded.after`. -/
theorem Minded.apply (h : r.Minded) (e : Event) : (e.apply r).Minded := by
  refine ⟨h.toGuarded.apply e, fun {t} hbusy => ?_⟩
  -- a task gets busy with a firing and idle with the end of its cycle; all else moves cycles about
  cases e with
  | command command =>
    have hkeeps := keeps_command command r
    rw [Event.apply, hkeeps.waiting, hkeeps.running]
    exact h.underway (busy_of_command hbusy)
  | exit id =>
    have hkeeps := keeps_exitTask id r
    rw [Event.apply, hkeeps.waiting, hkeeps.running]
    exact h.underway (busy_of_exitTask hbusy)
  | fire id now =>
    refine (busy_of_fire h.skips hbusy).elim (fun hold => ?_) (List.mem_append_left _)
    have hrunning : (r.fire id now).running = r.running := (holds_fire id now r).running
    have hwaiting : r.waiting ⊆ (r.fire id now).waiting := by
      cases hstarts : r.started? id now with
      | none => rw [(keeps_fire h.skips hstarts).waiting]; exact List.Subset.refl _
      | some agent =>
        rw [fire_of_started h.skips hstarts]
        exact List.subset_append_left _ _
    rw [Event.apply, hrunning]
    exact List.mem_append.2 ((List.mem_append.1 (h.underway hold)).imp_left (@hwaiting t))
  | grant =>
    cases hgrant : r.grant? with
    | none =>
      have hsame : Event.grant.apply r = r := by simp [Event.apply, hgrant]
      rw [hsame] at hbusy ⊢
      exact h.underway hbusy
    | some granted =>
      obtain ⟨rest, hwaiting, -, hr'⟩ := grant?_eq_some.1 hgrant
      have hsame : Event.grant.apply r = granted.2 := by simp [Event.apply, hgrant]
      rw [hsame, hr'] at hbusy ⊢
      have hmem := h.underway hbusy
      rw [hwaiting] at hmem
      exact (List.perm_middle.mem_iff (a := t)).2 hmem
  | finish id failure =>
    by_cases hruns : id ∈ r.running
    · obtain ⟨hne, hold⟩ := busy_of_finish hruns hbusy
      rw [Event.apply, waiting_finish, finish, if_pos hruns]
      refine (List.mem_append.1 (h.underway hold)).elim (List.mem_append_left _) fun hmem => ?_
      exact List.mem_append_right _ ((List.mem_erase_of_ne hne).2 hmem)
    · have hsame : (Event.finish id failure).apply r = r := if_neg hruns
      rw [hsame] at hbusy ⊢
      exact h.underway hbusy

/-- After any events, a task is busy only while one of its cycles waits or runs. -/
theorem Minded.after (h : r.Minded) (events : List Event) : (r.after events).Minded := by
  induction events generalizing r with
  | nil => exact h
  | cons e events ih => exact ih (h.apply e)

/-- Under `OverlapPolicy.skip` a task is busy exactly if a cycle of its own waits or runs. -/
theorem busy_iff {s : SchedulerSettings} (hnew : new? s = some start) (hskip : s.overlap = .skip)
    (events : List Event) :
    (start.after events).Busy t ↔
      t ∈ (start.after events).waiting ++ (start.after events).running := by
  have hstart : start.Minded :=
    ⟨guarded_new hnew hskip, fun {t} ⟨task, htask, _⟩ => by simp [tasks_new hnew] at htask⟩
  have hminded := hstart.after events
  exact ⟨hminded.underway, hminded.busy t⟩

end Runner

end Schedule

end EntityCache
