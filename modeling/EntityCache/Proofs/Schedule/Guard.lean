import EntityCache.Schedule.Runner

/-!
# The overlap guard

Under `OverlapPolicy.skip` a task that is busy does not fire, and a cycle keeps its task busy from
the firing to the end.  `Runner.Guarded` is the invariant: the cycles that wait or run are of tasks
of their own, which are all busy.

The guard does not see the cycles of other tasks.  A task that still fires is the latest one of its
agent (`Runner.Current`), but cycles of the tasks before it may still be under way: a cycle that
starts can only meet cycles that an earlier schedule of its agent has left behind
(`Runner.Guarded.earlier_of_starts`).
-/

namespace EntityCache

namespace Schedule

/-- Under `OverlapPolicy.skip`, the task starts a cycle if it fires now. -/
def Task.Starts (now : Nat) (t : Task) : Prop :=
  t.isLive = true ∧ t.due ≤ now ∧ t.busy = false

instance (now : Nat) (t : Task) : Decidable (t.Starts now) :=
  inferInstanceAs (Decidable (_ ∧ _))

/-- The task after it has been told to end. -/
def Task.abort (t : Task) : Task := if t.exit.isNone then { t with aborted := true } else t

@[simp] theorem Task.abort_agent (t : Task) : t.abort.agent = t.agent := by
  unfold abort
  split <;> rfl

@[simp] theorem Task.abort_busy (t : Task) : t.abort.busy = t.busy := by
  unfold abort
  split <;> rfl

/-- To end a task twice is to end it once. -/
@[simp] theorem Task.abort_abort (t : Task) : t.abort.abort = t.abort := by
  cases hexit : t.exit <;> simp [abort, hexit]

/-- A task that has been told to end is not live, whether it had ended before or not. -/
@[simp] theorem Task.isLive_abort (t : Task) : t.abort.isLive = false := by
  cases hexit : t.exit <;> simp [abort, isLive, hexit]

namespace Runner

/-- What the users of a scheduler can do to its schedules. -/
inductive Command where
  /-- Makes a schedule; its first firing is due at a moment. -/
  | schedule (agent : String) (job due : Nat)
  | unschedule (agent : String)
  /-- Cancels a schedule through its handle. -/
  | cancel (id : Nat)
  | shutdown
deriving DecidableEq, Repr

/-- Carries out a command. -/
def Command.apply : Command → Runner → Runner
  | .schedule agent job due, r => (r.schedule agent job due).2
  | .unschedule agent, r => (r.unschedule agent).2
  | .cancel id, r => r.abort id
  | .shutdown, r => r.shutdown

/-- The agent of a task. -/
def agentOf? (t : Nat) (r : Runner) : Option String := (r.tasks[t]?).map (·.agent)

/-- A task that is there is busy. -/
def Busy (t : Nat) (r : Runner) : Prop := ∃ task, r.tasks[t]? = some task ∧ task.busy = true

/-- The agent whose cycle a task starts if it fires now, under `OverlapPolicy.skip`. -/
def started? (t now : Nat) (r : Runner) : Option String :=
  (r.tasks[t]?).bind fun task => if task.Starts now then some task.agent else none

/-- What `started?` answers: the agent of a task that starts now. -/
theorem started?_eq_some {t now : Nat} {agent : String} {r : Runner} :
    r.started? t now = some agent ↔
      ∃ task, r.tasks[t]? = some task ∧ task.Starts now ∧ task.agent = agent := by
  simp [started?, Option.bind_eq_some_iff]

/-- A task that still fires is the latest one of its agent, and the one in the registry. -/
structure Current (r : Runner) : Prop where
  latest : ∀ {agent : String} {t t' : Nat}, r.registry[agent]? = some t →
    r.agentOf? t' = some agent → t' ≤ t
  live : ∀ {t : Nat} {task : Task}, r.tasks[t]? = some task → task.isLive = true →
    r.registry[task.agent]? = some t

/-- The invariant of a runner under `OverlapPolicy.skip`: no task has two cycles. -/
structure Guarded (r : Runner) : Prop where
  skips : r.policy = .skip
  current : r.Current
  nodup : (r.waiting ++ r.running).Nodup
  busy : ∀ t ∈ r.waiting ++ r.running, r.Busy t

variable {r r' : Runner} {t now : Nat} {agent : String}

/-- Only idle tasks start. -/
theorem not_busy_of_started (hstarts : r.started? t now = some agent) : ¬r.Busy t := by
  rintro ⟨task', htask', hbusy⟩
  obtain ⟨task, htask, ⟨-, -, hidle⟩, -⟩ := started?_eq_some.1 hstarts
  obtain rfl : task = task' := Option.some.inj (htask.symm.trans htask')
  simp [hidle] at hbusy

/-- A cycle that starts meets, of its own agent, only cycles of earlier tasks. -/
theorem Guarded.earlier_of_starts (h : r.Guarded) {t' : Nat}
    (hstarts : r.started? t now = some agent) (hbusy : r.Busy t')
    (hagent : r.agentOf? t' = some agent) : t' < t := by
  obtain ⟨task, htask, ⟨hlive, -, -⟩, rfl⟩ := started?_eq_some.1 hstarts
  have hle : t' ≤ t := h.current.latest (h.current.live htask hlive) hagent
  refine Nat.lt_of_le_of_ne hle ?_
  rintro rfl
  exact not_busy_of_started hstarts hbusy

/-! ## Changes of tasks -/

/-- The tasks of `r'` are those of `r`, each after a change that leaves it its agent and does not
make it fire again. -/
structure Turns (g : Nat → Task → Task) (r r' : Runner) : Prop where
  tasks : ∀ t, r'.tasks[t]? = (r.tasks[t]?).map (g t)
  agent : ∀ t (task : Task), (g t task).agent = task.agent
  live : ∀ t (task : Task), (g t task).isLive = true → task.isLive = true

section Turns

variable {g : Nat → Task → Task}

/-- No turn of a task changes its agent. -/
theorem Turns.agentOf?_eq (h : Turns g r r') (t : Nat) : r'.agentOf? t = r.agentOf? t := by
  simp [agentOf?, h.tasks, Function.comp_def, h.agent]

/-- Tasks stay busy in a turn that leaves their guard alone. -/
theorem Turns.busy (h : Turns g r r') (hg : ∀ task, (g t task).busy = task.busy)
    (hbusy : r.Busy t) : r'.Busy t := by
  obtain ⟨task, htask, hbusy⟩ := hbusy
  exact ⟨g t task, by simp [h.tasks, htask], by rw [hg, hbusy]⟩

/-- Tasks stay the latest of their agents if they keep their entries as long as they fire, and no
entry is new. -/
theorem Current.turn (h : r.Current) (hturns : Turns g r r')
    (hentries : ∀ (agent : String) (t : Nat),
      r'.registry[agent]? = some t → r.registry[agent]? = some t)
    (hkept : ∀ (t : Nat) (task : Task), r'.tasks[t]? = some task → task.isLive = true →
      r.registry[task.agent]? = some t → r'.registry[task.agent]? = some t) :
    r'.Current where
  latest hentry hagent := by
    rw [hturns.agentOf?_eq] at hagent
    exact h.latest (hentries _ _ hentry) hagent
  live := by
    intro t task' htask' hlive'
    refine hkept t task' htask' hlive' ?_
    rw [hturns.tasks, Option.map_eq_some_iff] at htask'
    obtain ⟨task, htask, rfl⟩ := htask'
    rw [hturns.agent]
    exact h.live htask (hturns.live t task hlive')

/-- A turn that leaves the registry as it is brings no task back to life, so `Current` stays. -/
theorem Current.turn_of_registry_eq (h : r.Current) (hturns : Turns g r r')
    (hregistry : r'.registry = r.registry) : r'.Current := by
  refine h.turn hturns (fun _ _ hentry => ?_) fun _ _ _ _ hentry => ?_
  · rwa [← hregistry]
  · rwa [hregistry]

end Turns

/-- `modifyTask` reaches the named task and no other. -/
theorem getElem?_modifyTask (id : Nat) (f : Task → Task) (r : Runner) (t : Nat) :
    (r.modifyTask id f).tasks[t]? =
      (r.tasks[t]?).map fun task => if id = t then f task else task :=
  List.getElem?_modify f id r.tasks t

/-- One task changes. -/
theorem turns_modifyTask (id : Nat) (f : Task → Task) (hagent : ∀ task, (f task).agent = task.agent)
    (hlive : ∀ task, (f task).isLive = true → task.isLive = true) (r : Runner) :
    Turns (fun t task => if id = t then f task else task) r (r.modifyTask id f) where
  tasks := getElem?_modifyTask id f r
  agent t task := by
    split
    · exact hagent task
    · rfl
  live t task h := by
    split at h
    · exact hlive task h
    · exact h

/-! ## Changes that no cycle takes part in -/

/-- No cycle starts, gets a permit or ends. -/
structure Keeps (r r' : Runner) : Prop where
  policy : r'.policy = r.policy
  waiting : r'.waiting = r.waiting
  running : r'.running = r.running
  agent : ∀ {t : Nat} {agent : String}, r.agentOf? t = some agent → r'.agentOf? t = some agent
  busy : ∀ {t : Nat}, r.Busy t → r'.Busy t

theorem Keeps.refl (r : Runner) : Keeps r r := ⟨rfl, rfl, rfl, fun h => h, fun h => h⟩

/-- What two steps keep in turn, they keep together. -/
theorem Keeps.trans {r'' : Runner} (h : Keeps r r') (h' : Keeps r' r'') : Keeps r r'' where
  policy := h'.policy.trans h.policy
  waiting := h'.waiting.trans h.waiting
  running := h'.running.trans h.running
  agent := fun hagent => h'.agent (h.agent hagent)
  busy := fun hbusy => h'.busy (h.busy hbusy)

/-- A step that keeps the cycles and the busy tasks keeps the guard, if it keeps `Current`. -/
theorem Guarded.keep (h : r.Guarded) (hkeeps : Keeps r r') (hcurrent : r'.Current) :
    r'.Guarded where
  skips := hkeeps.policy.trans h.skips
  current := hcurrent
  nodup := by
    rw [hkeeps.waiting, hkeeps.running]
    exact h.nodup
  busy t ht := by
    rw [hkeeps.waiting, hkeeps.running] at ht
    exact hkeeps.busy (h.busy t ht)

/-- Tasks change, and none begins or ceases to be busy. -/
theorem Turns.keeps {g : Nat → Task → Task} (h : Turns g r r')
    (hbusy : ∀ (t : Nat) (task : Task), (g t task).busy = task.busy)
    (hpolicy : r'.policy = r.policy) (hwaiting : r'.waiting = r.waiting)
    (hrunning : r'.running = r.running) : Keeps r r' where
  policy := hpolicy
  waiting := hwaiting
  running := hrunning
  agent := fun {t} _ hagent => (h.agentOf?_eq t).trans hagent
  busy := h.busy (hbusy _)

/-- An entry that is left after one has been taken out has been there before. -/
theorem getElem?_of_erase {registry : Std.ExtTreeMap String Nat} {agent other : String} {t : Nat}
    (h : (registry.erase agent)[other]? = some t) : registry[other]? = some t := by
  rw [Std.ExtTreeMap.getElem?_erase] at h
  split at h
  · cases h
  · exact h

/-! ### Tasks that are told to end -/

/-- Tells several tasks to end, and replaces the registry. -/
def withdraw (ids : List Nat) (registry : Std.ExtTreeMap String Nat) (r : Runner) : Runner :=
  ids.foldl (fun r id => r.abort id) { r with registry }

/-- To cancel a task is to withdraw it and leave the registry alone. -/
theorem abort_eq (id : Nat) (r : Runner) : r.abort id = r.withdraw [id] r.registry := rfl

/-- To unschedule an agent is to withdraw the task that it is registered with. -/
theorem unschedule_eq (agent : String) (r : Runner) :
    (r.unschedule agent).2 = r.withdraw r.registry[agent]?.toList (r.registry.erase agent) := by
  simp only [unschedule]
  cases r.registry[agent]? <;> rfl

/-- A shutdown withdraws every registered task. -/
theorem shutdown_eq (r : Runner) :
    r.shutdown = r.withdraw (r.registry.toList.map (·.2)) ∅ := by
  rw [withdraw, List.foldl_map]
  rfl

/-- The runner with one more task. -/
def add (agent : String) (job due : Nat) (r : Runner) : Runner :=
  { r with tasks := r.tasks ++ [({ agent, job, due } : Task)] }

/-- A schedule adds a task, registers it and withdraws the one that was registered before. -/
theorem schedule_eq (agent : String) (job now : Nat) (r : Runner) :
    (r.schedule agent job now).2 = (r.add agent job now).withdraw r.registry[agent]?.toList
      (r.registry.insert agent r.tasks.length) := by
  simp only [schedule]
  cases r.registry[agent]? <;> rfl

variable {ids : List Nat} {registry : Std.ExtTreeMap String Nat}

/-- Of what is not a task, only the registry changes. -/
theorem withdraw_eq (ids : List Nat) (registry : Std.ExtTreeMap String Nat) (r : Runner) :
    r.withdraw ids registry = { r with registry, tasks := (r.withdraw ids registry).tasks } := by
  unfold withdraw
  generalize hr : { r with registry } = r₁
  have hframe : ids.foldl (fun r id => r.abort id) r₁ =
      { r₁ with tasks := (ids.foldl (fun r id => r.abort id) r₁).tasks } := by
    clear hr
    induction ids generalizing r₁ with
    | nil => rfl
    | cons id ids ih => exact ih (r₁.abort id)
  rw [hframe, ← hr]

/-- A withdrawal turns the tasks it names, each by `abort`, and no others. -/
theorem turns_withdraw (ids : List Nat) (registry : Std.ExtTreeMap String Nat) (r : Runner) :
    Turns (fun t task => if t ∈ ids then task.abort else task) r (r.withdraw ids registry) where
  tasks t := by
    have hregistry : r.tasks = { r with registry }.tasks := rfl
    rw [withdraw, hregistry]
    generalize { r with registry } = r
    -- the tasks are ended one by one, and to end one twice is to end it once
    induction ids generalizing r with
    | nil => simp
    | cons id ids ih =>
      have hid : (r.abort id).tasks[t]? =
          (r.tasks[t]?).map fun task => if id = t then task.abort else task :=
        getElem?_modifyTask id Task.abort r t
      rw [List.foldl_cons, ih, hid, Option.map_map]
      refine congrArg (Option.map · r.tasks[t]?) (funext fun task => ?_)
      by_cases heq : id = t
      · subst heq
        simp
      · simp [heq, Ne.symm heq]
  agent t task := by split <;> simp
  live t task h := by
    split at h
    · simp at h
    · exact h

/-- A withdrawal ends no cycle: the tasks that it ends stay busy until their cycles are over. -/
theorem keeps_withdraw (ids : List Nat) (registry : Std.ExtTreeMap String Nat) (r : Runner) :
    Keeps r (r.withdraw ids registry) := by
  have hturns := turns_withdraw ids registry r
  rw [withdraw_eq] at hturns ⊢
  refine hturns.keeps (fun t task => ?_) rfl rfl rfl
  split <;> simp

/-- Tasks whose entries are taken out of the registry are told to end. -/
theorem Current.withdraw (h : r.Current)
    (hentries : ∀ (agent : String) (t : Nat),
      registry[agent]? = some t → r.registry[agent]? = some t)
    (hdropped : ∀ (agent : String) (t : Nat), r.registry[agent]? = some t →
      t ∈ ids ∨ registry[agent]? = some t) :
    (r.withdraw ids registry).Current := by
  have hturns := turns_withdraw ids registry r
  have hregistry : (r.withdraw ids registry).registry = registry := by rw [withdraw_eq]
  refine h.turn hturns (by simpa only [hregistry] using hentries) ?_
  intro t task htask hlive hentry
  rw [hregistry]
  refine (hdropped _ _ hentry).resolve_left fun hmem => ?_
  rw [hturns.tasks, Option.map_eq_some_iff] at htask
  obtain ⟨task, -, rfl⟩ := htask
  simp [hmem] at hlive

/-- A cancelled task is one task less that can fire. -/
theorem Current.abort (h : r.Current) (id : Nat) : (r.abort id).Current := by
  rw [abort_eq]
  exact h.withdraw (fun _ _ hentry => hentry) fun _ _ hentry => .inr hentry

/-- Without its registered task an agent has none that fires. -/
theorem Current.unschedule (h : r.Current) (agent : String) : (r.unschedule agent).2.Current := by
  rw [unschedule_eq]
  refine h.withdraw (fun _ _ => getElem?_of_erase) fun other t hentry => ?_
  by_cases heq : agent = other
  · subst heq
    simp [hentry]
  · simp [Std.ExtTreeMap.getElem?_erase, heq, hentry]

/-- No task fires after a shutdown. -/
theorem Current.shutdown (h : r.Current) : r.shutdown.Current := by
  rw [shutdown_eq]
  refine h.withdraw (by simp) fun agent t hentry => .inl ?_
  exact List.mem_map.2 ⟨(agent, t), Std.ExtTreeMap.mem_toList_iff_getElem?_eq_some.2 hentry, rfl⟩

/-! ### New schedules -/

/-- An added task takes the next number. -/
theorem getElem?_add (agent : String) (job due : Nat) (r : Runner) (t : Nat) :
    (r.add agent job due).tasks[t]? =
      if t = r.tasks.length then some { agent, job, due } else r.tasks[t]? := by
  rcases Nat.lt_trichotomy t r.tasks.length with hlt | rfl | hgt
  · rw [add, List.getElem?_append_left hlt, if_neg (Nat.ne_of_lt hlt)]
  · simp [add]
  · rw [if_neg (Nat.ne_of_gt hgt), List.getElem?_eq_none (Nat.le_of_lt hgt)]
    exact List.getElem?_eq_none (by simp [add]; omega)

/-- An added task is of the agent it was added for; the others keep theirs. -/
theorem agentOf?_add (agent : String) (job due : Nat) (r : Runner) (t : Nat) :
    (r.add agent job due).agentOf? t =
      if t = r.tasks.length then some agent else r.agentOf? t := by
  rw [agentOf?, getElem?_add]
  split <;> rfl

/-- A new task is idle and has no cycles. -/
theorem keeps_add (agent : String) (job due : Nat) (r : Runner) :
    Keeps r (r.add agent job due) := by
  have hold {t : Nat} {task : Task} (htask : r.tasks[t]? = some task) :
      (r.add agent job due).tasks[t]? = some task := by
    have hlt : t < r.tasks.length := (List.getElem?_eq_some_iff.1 htask).1
    rw [getElem?_add, if_neg (Nat.ne_of_lt hlt), htask]
  refine ⟨rfl, rfl, rfl, fun {t agent} h => ?_, fun ⟨task, htask, hbusy⟩ => ?_⟩
  · obtain ⟨task, htask, rfl⟩ := Option.map_eq_some_iff.1 h
    rw [agentOf?, hold htask, Option.map_some]
  · exact ⟨task, hold htask, hbusy⟩

/-- The task of a new schedule takes over from the one before, which is withdrawn at once. -/
theorem Current.schedule (h : r.Current) (agent : String) (job now : Nat) :
    (r.schedule agent job now).2.Current := by
  rw [schedule_eq]
  have hturns := turns_withdraw r.registry[agent]?.toList
    (r.registry.insert agent r.tasks.length) (r.add agent job now)
  refine ⟨?latest, ?live⟩
  case latest =>
    intro other t t' hentry hagent
    rw [withdraw_eq] at hentry
    rw [hturns.agentOf?_eq, agentOf?_add] at hagent
    by_cases heq : agent = other
    · subst heq
      obtain rfl : r.tasks.length = t := by simpa using hentry
      split at hagent
      case isTrue hnew => exact Nat.le_of_eq hnew
      case isFalse =>
        obtain ⟨task, htask, -⟩ := Option.map_eq_some_iff.1 hagent
        exact Nat.le_of_lt (List.getElem?_eq_some_iff.1 htask).1
    · rw [Std.ExtTreeMap.getElem?_insert, if_neg (by simpa using heq)] at hentry
      split at hagent
      case isTrue => exact absurd (Option.some.inj hagent) heq
      case isFalse => exact h.latest hentry hagent
  case live =>
    intro t task htask hlive
    rw [hturns.tasks, getElem?_add, Option.map_eq_some_iff] at htask
    obtain ⟨task, htask, rfl⟩ := htask
    have hnot : t ∉ r.registry[agent]?.toList := fun hmem => by simp [hmem] at hlive
    rw [if_neg hnot] at hlive ⊢
    rw [withdraw_eq]
    split at htask
    case isTrue hnew =>
      obtain rfl := Option.some.inj htask
      simp [hnew]
    case isFalse =>
      -- the task before of the same agent has just been told to end
      have hentry := h.live htask hlive
      have hne : agent ≠ task.agent := fun heq => hnot (by simp [heq, hentry])
      rw [Std.ExtTreeMap.getElem?_insert, if_neg (by simpa using hne)]
      exact hentry

/-- Whatever the users do, the task of an agent that still fires is its latest. -/
theorem Current.command (h : r.Current) (command : Command) : (command.apply r).Current := by
  cases command with
  | schedule agent job due => exact h.schedule agent job due
  | unschedule agent => exact h.unschedule agent
  | cancel id => exact h.abort id
  | shutdown => exact h.shutdown

/-- No command touches a cycle. -/
theorem keeps_command (command : Command) (r : Runner) : Keeps r (command.apply r) := by
  cases command with
  | schedule agent job due =>
    rw [Command.apply, schedule_eq]
    exact (keeps_add agent job due r).trans (keeps_withdraw _ _ _)
  | unschedule agent =>
    rw [Command.apply, unschedule_eq]
    exact keeps_withdraw _ _ r
  | cancel id => exact keeps_withdraw [id] r.registry r
  | shutdown =>
    rw [Command.apply, shutdown_eq]
    exact keeps_withdraw _ _ r

/-- Commands keep the guard. -/
theorem Guarded.command (h : r.Guarded) (command : Command) : (command.apply r).Guarded :=
  h.keep (keeps_command command r) (h.current.command command)

/-! ## Moves of a task -/

/-- A task ends, if it has a reason to, and takes its own entry out of the registry. -/
theorem exitTask_cases (id : Nat) (r : Runner) :
    r.exitTask id = r ∨ ∃ task exit, r.tasks[id]? = some task ∧
      r.exitTask id = { r.modifyTask id fun t => { t with exit := some exit } with
        registry := if r.registry[task.agent]? = some id then r.registry.erase task.agent
          else r.registry } := by
  unfold exitTask
  cases htask : r.tasks[id]? with
  | none => exact .inl rfl
  | some task =>
    cases hending : Task.ending? task with
    | none => exact .inl (by simp [hending])
    | some exit =>
      refine .inr ⟨task, exit, rfl, ?_⟩
      have hregistry : (r.modifyTask id fun t => { t with exit := some exit }).registry =
          r.registry := rfl
      simp only [hending, hregistry]
      split <;> rfl

/-- The change of a task that ends. -/
theorem turns_exit (id : Nat) (exit : Exit) (r : Runner) :
    Turns (fun t task => if id = t then { task with exit := some exit } else task) r
      (r.modifyTask id fun t => { t with exit := some exit }) :=
  turns_modifyTask id (fun t => { t with exit := some exit }) (fun _ => rfl)
    (fun _ h => by simp [Task.isLive] at h) r

/-- A task that ends leaves its cycles running. -/
theorem keeps_exitTask (id : Nat) (r : Runner) : Keeps r (r.exitTask id) := by
  rcases exitTask_cases id r with heq | ⟨task, exit, -, heq⟩ <;> rw [heq]
  · exact Keeps.refl r
  · have hturns := turns_exit id exit r
    refine Turns.keeps ⟨hturns.tasks, hturns.agent, hturns.live⟩ (fun t task => ?_) rfl rfl rfl
    split <;> rfl

/-- A task that has ended fires no more. -/
theorem Current.exitTask (h : r.Current) (id : Nat) : (r.exitTask id).Current := by
  rcases exitTask_cases id r with heq | ⟨ended, exit, -, heq⟩ <;> rw [heq]
  · exact h
  · have hturns := turns_exit id exit r
    refine h.turn ⟨hturns.tasks, hturns.agent, hturns.live⟩ (fun agent t hentry => ?_)
      fun t task htask hlive hentry => ?_
    · dsimp only at hentry
      split at hentry
      · exact getElem?_of_erase hentry
      · exact hentry
    · -- only the task that has ended loses its entry, and it does not fire any more
      have hne : id ≠ t := by
        rintro rfl
        rw [hturns.tasks, Option.map_eq_some_iff] at htask
        obtain ⟨_, -, rfl⟩ := htask
        simp [Task.isLive] at hlive
      dsimp only
      split
      case isTrue hmine =>
        have hagent : ended.agent ≠ task.agent := fun hsame =>
          hne (Option.some.inj (hmine.symm.trans (hsame ▸ hentry)))
        rw [Std.ExtTreeMap.getElem?_erase, if_neg (by simpa using hagent)]
        exact hentry
      case isFalse => exact hentry

/-- The end of a task keeps the guard. -/
theorem Guarded.exitTask (h : r.Guarded) (id : Nat) : (r.exitTask id).Guarded :=
  h.keep (keeps_exitTask id r) (h.current.exitTask id)

/-- The firing of a task that starts a cycle. -/
theorem fire_of_started (hskips : r.policy = .skip) (hstarts : r.started? t now = some agent) :
    r.fire t now =
      { r.modifyTask t fun task => { task with due := now + r.interval, busy := true } with
        waiting := r.waiting ++ [t] } := by
  obtain ⟨task, htask, ⟨hlive, hdue, hidle⟩, -⟩ := started?_eq_some.1 hstarts
  simp [fire, htask, hlive, hdue, hskips, hidle]

/-- A firing that starts no cycle at most puts the next one off. -/
theorem fire_of_idle (hskips : r.policy = .skip) (hidle : r.started? t now = none) :
    r.fire t now = r ∨
      r.fire t now = r.modifyTask t fun task => { task with due := now + r.interval } := by
  unfold fire
  cases htask : r.tasks[t]? with
  | none => exact .inl rfl
  | some task =>
    simp only [hskips]
    split
    case isTrue hfires =>
      cases hbusy : task.busy with
      | true => exact .inr rfl
      | false =>
        have hstarts : task.Starts now := ⟨hfires.1, hfires.2, hbusy⟩
        simp [started?, htask, hstarts] at hidle
    case isFalse => exact .inl rfl

/-- The change of a task that fires. -/
theorem turns_fire (t due : Nat) (busy : Task → Bool) (r : Runner) :
    Turns (fun other task => if t = other then { task with due, busy := busy task } else task) r
      (r.modifyTask t fun task => { task with due, busy := busy task }) :=
  turns_modifyTask t (fun task => { task with due, busy := busy task }) (fun _ => rfl)
    (fun _ h => h) r

/-- Under the policy, a firing that starts no cycle changes neither cycles nor guards. -/
theorem keeps_fire (hskips : r.policy = .skip) (hidle : r.started? t now = none) :
    Keeps r (r.fire t now) := by
  rcases fire_of_idle hskips hidle with heq | heq <;> rw [heq]
  · exact Keeps.refl r
  · refine (turns_fire t (now + r.interval) (·.busy) r).keeps (fun t task => ?_) rfl rfl rfl
    split <;> rfl

/-- A firing changes no agent. -/
theorem agentOf?_fire (hskips : r.policy = .skip) (t now t' : Nat) :
    (r.fire t now).agentOf? t' = r.agentOf? t' := by
  cases hstarts : r.started? t now with
  | none =>
    rcases fire_of_idle hskips hstarts with heq | heq <;> rw [heq]
    exact (turns_fire t (now + r.interval) (·.busy) r).agentOf?_eq t'
  | some agent =>
    rw [fire_of_started hskips hstarts]
    exact (turns_fire t (now + r.interval) (fun _ => true) r).agentOf?_eq t'

/-- A cycle that a firing starts waits for its permit first. -/
theorem running_fire (hskips : r.policy = .skip) (t now : Nat) :
    (r.fire t now).running = r.running := by
  cases hstarts : r.started? t now with
  | none => exact (keeps_fire hskips hstarts).running
  | some agent =>
    rw [fire_of_started hskips hstarts]
    rfl

/-- A firing keeps the guard: the task that starts was idle, hence without a cycle, and is busy
now. -/
theorem Guarded.fire (h : r.Guarded) (t now : Nat) : (r.fire t now).Guarded := by
  cases hstarts : r.started? t now with
  | none =>
    refine h.keep (keeps_fire h.skips hstarts) ?_
    rcases fire_of_idle h.skips hstarts with heq | heq <;> rw [heq]
    · exact h.current
    · exact h.current.turn_of_registry_eq (turns_fire t (now + r.interval) (·.busy) r) rfl
  | some agent =>
    have hturns := turns_fire t (now + r.interval) (fun _ => true) r
    have hfree : t ∉ r.waiting ++ r.running := fun hmem =>
      not_busy_of_started hstarts (h.busy t hmem)
    obtain ⟨task, htask, -, -⟩ := started?_eq_some.1 hstarts
    rw [fire_of_started h.skips hstarts]
    -- the task that starts is added to those with a cycle, none of which it was
    have hperm : ((r.waiting ++ [t]) ++ r.running).Perm (t :: (r.waiting ++ r.running)) := by
      rw [List.append_assoc]
      exact List.perm_middle
    refine ⟨h.skips, ?_, ?_, fun t' ht' => ?_⟩
    · exact h.current.turn_of_registry_eq ⟨hturns.tasks, hturns.agent, hturns.live⟩ rfl
    · exact hperm.nodup_iff.2 (List.nodup_cons.2 ⟨hfree, h.nodup⟩)
    · by_cases heq : t = t'
      · subst heq
        exact ⟨{ task with due := now + r.interval, busy := true },
          by simp [hturns.tasks, htask], rfl⟩
      · have hmem : t' ∈ r.waiting ++ r.running :=
          (List.mem_cons.1 (hperm.mem_iff.1 ht')).resolve_left (Ne.symm heq)
        exact hturns.busy (fun task => by rw [if_neg heq]) (h.busy t' hmem)

/-- A permit goes to the cycle that has waited longest, if one is free. -/
theorem grant?_eq_some :
    r.grant? = some (t, r') ↔ ∃ rest, r.waiting = t :: rest ∧ 0 < r.available ∧
      r' = { r with waiting := rest, available := r.available - 1, running := t :: r.running } := by
  unfold grant?
  cases r.waiting with
  | nil => simp
  | cons id rest =>
    simp only [Option.ite_none_right_eq_some, Option.some.injEq, Prod.mk.injEq, List.cons.injEq]
    constructor
    · rintro ⟨hfree, rfl, rfl⟩
      exact ⟨rest, ⟨rfl, rfl⟩, hfree, rfl⟩
    · rintro ⟨_, ⟨rfl, rfl⟩, hfree, rfl⟩
      exact ⟨hfree, rfl, rfl⟩

/-- A grant keeps the guard: the cycle moves from those that wait to those that run. -/
theorem Guarded.grant (h : r.Guarded) (hgrant : r.grant? = some (t, r')) : r'.Guarded := by
  obtain ⟨rest, hwaiting, -, rfl⟩ := grant?_eq_some.1 hgrant
  have hperm : (rest ++ t :: r.running).Perm (r.waiting ++ r.running) := by
    rw [hwaiting]
    exact List.perm_middle
  exact ⟨h.skips, ⟨h.current.latest, h.current.live⟩, hperm.nodup_iff.2 h.nodup,
    fun t' ht' => h.busy t' (hperm.mem_iff.1 ht')⟩

/-- The change of a task whose cycle ends. -/
theorem turns_finish (t : Nat) (failure : Option CallbackError) (r : Runner) :
    Turns (fun other task => if t = other then
        { task with busy := false, failures := task.failures ++ failure.toList } else task) r
      (r.modifyTask t fun task =>
        { task with busy := false, failures := task.failures ++ failure.toList }) :=
  turns_modifyTask t
    (fun task => { task with busy := false, failures := task.failures ++ failure.toList })
    (fun _ => rfl) (fun _ h => h) r

/-- The end of a cycle changes no agent. -/
theorem agentOf?_finish (t : Nat) (failure : Option CallbackError) (r : Runner) (t' : Nat) :
    (r.finish t failure).agentOf? t' = r.agentOf? t' := by
  unfold finish
  split
  · exact (turns_finish t failure r).agentOf?_eq t'
  · rfl

/-- The end of a cycle takes no other cycle out of the queue. -/
theorem waiting_finish (t : Nat) (failure : Option CallbackError) (r : Runner) :
    (r.finish t failure).waiting = r.waiting := by
  unfold finish
  split <;> rfl

/-- The end of a cycle keeps the guard: it makes its own task idle, which had no other cycle. -/
theorem Guarded.finish (h : r.Guarded) (t : Nat) (failure : Option CallbackError) :
    (r.finish t failure).Guarded := by
  by_cases hruns : t ∈ r.running
  · have hturns := turns_finish t failure r
    have hsub : (r.waiting ++ r.running.erase t).Sublist (r.waiting ++ r.running) :=
      List.erase_sublist.append_left r.waiting
    rw [Runner.finish, if_pos hruns]
    refine ⟨h.skips, ?_, h.nodup.sublist hsub, fun t' ht' => ?_⟩
    · exact h.current.turn_of_registry_eq ⟨hturns.tasks, hturns.agent, hturns.live⟩ rfl
    · -- the cycle that ends is the only one of its task
      have hne : t ≠ t' := by
        rintro rfl
        obtain ⟨-, hnodup, hdisjoint⟩ := List.nodup_append.1 h.nodup
        rcases List.mem_append.1 ht' with hwaits | hruns'
        · exact hdisjoint t hwaits t hruns rfl
        · exact hnodup.not_mem_erase hruns'
      exact hturns.busy (fun task => by rw [if_neg hne]) (h.busy t' (hsub.subset ht'))
  · rw [Runner.finish, if_neg hruns]
    exact h

/-- What a new scheduler is made of, if its settings permit one. -/
theorem eq_of_new {s : SchedulerSettings} (hnew : new? s = some r) :
    r = { interval := max s.interval 1, policy := s.overlap, capacity := permits s,
          available := permits s } := by
  unfold new? at hnew
  split at hnew
  case isTrue => exact (Option.some.inj hnew).symm
  case isFalse => cases hnew

theorem waiting_new {s : SchedulerSettings} (hnew : new? s = some r) : r.waiting = [] := by
  rw [eq_of_new hnew]

theorem running_new {s : SchedulerSettings} (hnew : new? s = some r) : r.running = [] := by
  rw [eq_of_new hnew]

theorem tasks_new {s : SchedulerSettings} (hnew : new? s = some r) : r.tasks = [] := by
  rw [eq_of_new hnew]

/-- A new scheduler has no tasks at all. -/
theorem current_new {s : SchedulerSettings} (hnew : new? s = some r) : r.Current := by
  obtain rfl := eq_of_new hnew
  exact ⟨by simp, by simp⟩

/-- A new runner under `OverlapPolicy.skip`. -/
theorem guarded_new {s : SchedulerSettings} (hnew : new? s = some r) (hskip : s.overlap = .skip) :
    r.Guarded := by
  have hcurrent := current_new hnew
  obtain rfl := eq_of_new hnew
  exact ⟨hskip, hcurrent, by simp, by simp⟩

end Runner

end Schedule

end EntityCache
