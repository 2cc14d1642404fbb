import EntityCache.Proofs.Schedule.Guard
import Mathlib.Data.List.Induction

/-!
# The registry of schedules

A runner goes through commands, firings, permits, and the ends of cycles and of tasks in any order
(`Runner.Event`).  A task that has been told to end may take any time until it does, and until then
other tasks may be made for its agent.

Throughout, the registry maps an agent to the latest of its tasks, as long as no command has taken
the entry out since that task was made and the task has not ended (`Runner.tells_after`).  A
task that ends leaves the entries of other tasks alone.  Every task that still fires has an entry,
so that taking out an entry tells the right task to end, and a shutdown all of them
(`Runner.fire_after_shutdown`).
-/

namespace EntityCache

namespace Schedule

@[simp] theorem Task.abort_exit (t : Task) : t.abort.exit = t.exit := by
  unfold abort
  split <;> rfl

namespace Runner

/-- What happens to a runner. -/
inductive Event where
  | command (cmd : Command)
  /-- A task ends, if it has a reason to. -/
  | exit (id : Nat)
  | fire (id now : Nat)
  | grant
  | finish (id : Nat) (failure : Option CallbackError)
deriving DecidableEq, Repr

/-- The runner after an event. -/
def Event.apply : Event → Runner → Runner
  | .command cmd, r => cmd.apply r
  | .exit id, r => r.exitTask id
  | .fire id now, r => r.fire id now
  | .grant, r => (r.grant?.map (·.2)).getD r
  | .finish id failure, r => r.finish id failure

/-- The runner after events, one after another. -/
def after (events : List Event) (r : Runner) : Runner := events.foldl (fun r e => e.apply r) r

/-- Events in two parts, one after the other. -/
theorem after_append (events later : List Event) (r : Runner) :
    r.after (events ++ later) = (r.after events).after later :=
  List.foldl_append

/-- Why a task has ended, if it has. -/
def exit? (t : Nat) (r : Runner) : Option Exit := (r.tasks[t]?).bind (·.exit)

/-- A task that still fires. -/
def Live (t : Nat) (r : Runner) : Prop := ∃ task, r.tasks[t]? = some task ∧ task.isLive = true

/-- The task that has been made last for an agent. -/
structure Latest (r : Runner) (agent : String) (t : Nat) : Prop where
  made : r.agentOf? t = some agent
  last : ∀ t', r.agentOf? t' = some agent → t' ≤ t

/-- A command that takes the entry of an agent out of the registry. -/
def Command.Removes (agent : String) : Command → Prop
  | .unschedule other => other = agent
  | .shutdown => True
  | .schedule .. | .cancel _ => False

/-- After the task was made, one of the events is a command that takes out the entry of its
agent. -/
def Withdrawn (start : Runner) (agent : String) (t : Nat) (events : List Event) : Prop :=
  ∃ before command later, events = before ++ .command command :: later ∧
    command.Removes agent ∧ (start.after before).agentOf? t = some agent

variable {r r' start : Runner} {agent : String} {t : Nat} {events : List Event}

/-! ## Events as changes of tasks -/

/-- A turn that leaves the ends of tasks alone leaves what is known of them. -/
theorem Turns.exit?_eq {g : Nat → Task → Task} (h : Turns g r r')
    (hg : ∀ task, (g t task).exit = task.exit) : r'.exit? t = r.exit? t := by
  simp only [exit?, h.tasks, Option.bind_map, Function.comp_def, hg]

/-- No turn brings a task back to life. -/
theorem Turns.of_live {g : Nat → Task → Task} (h : Turns g r r') (hlive : r'.Live t) :
    r.Live t := by
  obtain ⟨task', htask', hlive⟩ := hlive
  rw [h.tasks, Option.map_eq_some_iff] at htask'
  obtain ⟨task, htask, rfl⟩ := htask'
  exact ⟨task, htask, h.live t task hlive⟩

/-- Whatever the policy, a task that fires is put off and may become busy, and a cycle may wait. -/
theorem fire_cases (t now : Nat) (r : Runner) :
    r.fire t now = r ∨ ∃ (busy : Task → Bool) (waiting : List Nat), r.fire t now =
      { r.modifyTask t fun task => { task with due := now + r.interval, busy := busy task } with
        waiting } := by
  -- a task that fires is due again, whether its cycle starts or is skipped
  unfold fire
  cases htask : r.tasks[t]? with
  | none => exact .inl rfl
  | some task =>
    simp only
    split
    case isTrue =>
      cases r.policy with
      | allow => exact .inr ⟨(·.busy), r.waiting ++ [t], rfl⟩
      | skip =>
        cases task.busy with
        | true => exact .inr ⟨(·.busy), r.waiting, rfl⟩
        | false => exact .inr ⟨fun _ => true, r.waiting ++ [t], rfl⟩
    case isFalse => exact .inl rfl

/-- A task that is not live does not fire. -/
theorem fire_of_not_live (h : ¬r.Live t) (now : Nat) : r.fire t now = r := by
  unfold fire
  cases htask : r.tasks[t]? with
  | none => rfl
  | some task =>
    exact if_neg fun hfires => h ⟨task, htask, hfires.1⟩

/-- An event that leaves the registry as it is, and ends no task. -/
structure Unregistered (r r' : Runner) : Prop where
  registry : r'.registry = r.registry
  turns : ∃ g, Turns g r r' ∧ ∀ t (task : Task), (g t task).exit = task.exit

/-- The registry is the same while nothing happens. -/
theorem Unregistered.refl (r : Runner) : Unregistered r r :=
  ⟨rfl, fun _ task => task, ⟨fun t => by simp, fun _ _ => rfl, fun _ _ h => h⟩, fun _ _ => rfl⟩

/-- A cancelled task stays in the registry. -/
theorem unregistered_abort (id : Nat) (r : Runner) : Unregistered r (r.abort id) := by
  refine ⟨rfl, _, turns_withdraw [id] r.registry r, fun t task => ?_⟩
  split <;> simp

/-- A firing leaves the registry alone. -/
theorem unregistered_fire (t now : Nat) (r : Runner) : Unregistered r (r.fire t now) := by
  rcases fire_cases t now r with heq | ⟨busy, waiting, heq⟩ <;> rw [heq]
  · exact .refl r
  · have hturns := turns_fire t (now + r.interval) busy r
    refine ⟨rfl, _, ⟨hturns.tasks, hturns.agent, hturns.live⟩, fun t task => ?_⟩
    split <;> rfl

/-- A grant leaves the registry alone. -/
theorem unregistered_grant (r : Runner) : Unregistered r (Event.grant.apply r) := by
  cases hgrant : r.grant? with
  | none => simpa [Event.apply, hgrant] using Unregistered.refl r
  | some granted =>
    obtain ⟨rest, -, -, hr'⟩ := grant?_eq_some.1 hgrant
    have hsame : Event.grant.apply r = granted.2 := by simp [Event.apply, hgrant]
    rw [hsame, hr']
    obtain ⟨hregistry, g, hturns, hexit⟩ := Unregistered.refl r
    exact ⟨hregistry, g, ⟨hturns.tasks, hturns.agent, hturns.live⟩, hexit⟩

/-- The end of a cycle leaves the registry alone. -/
theorem unregistered_finish (t : Nat) (failure : Option CallbackError) (r : Runner) :
    Unregistered r (r.finish t failure) := by
  unfold finish
  split
  · have hturns := turns_finish t failure r
    refine ⟨rfl, _, ⟨hturns.tasks, hturns.agent, hturns.live⟩, fun t task => ?_⟩
    split <;> rfl
  · exact .refl r

/-- Every event changes tasks that are there, after making a new one if it is to make a schedule. -/
theorem exists_turns_apply (e : Event) (r : Runner) :
    ∃ g r₁, (r₁ = r ∨ ∃ agent job due, r₁ = r.add agent job due) ∧ Turns g r₁ (e.apply r) := by
  -- only a new schedule adds a task, and does so before it withdraws the old one
  cases e with
  | command command =>
    cases command with
    | schedule agent job due =>
      rw [Event.apply, Command.apply, schedule_eq]
      exact ⟨_, _, .inr ⟨agent, job, due, rfl⟩, turns_withdraw _ _ _⟩
    | unschedule agent =>
      rw [Event.apply, Command.apply, unschedule_eq]
      exact ⟨_, r, .inl rfl, turns_withdraw _ _ _⟩
    | cancel id => exact ⟨_, r, .inl rfl, turns_withdraw [id] r.registry r⟩
    | shutdown =>
      rw [Event.apply, Command.apply, shutdown_eq]
      exact ⟨_, r, .inl rfl, turns_withdraw _ _ _⟩
  | exit id =>
    rcases exitTask_cases id r with heq | ⟨task, exit, -, heq⟩ <;> rw [Event.apply, heq]
    · obtain ⟨-, g, hturns, -⟩ := Unregistered.refl r
      exact ⟨g, r, .inl rfl, hturns⟩
    · have hturns := turns_exit id exit r
      exact ⟨_, r, .inl rfl, hturns.tasks, hturns.agent, hturns.live⟩
  | fire id now =>
    obtain ⟨-, g, hturns, -⟩ := unregistered_fire id now r
    exact ⟨g, r, .inl rfl, hturns⟩
  | grant =>
    obtain ⟨-, g, hturns, -⟩ := unregistered_grant r
    exact ⟨g, r, .inl rfl, hturns⟩
  | finish id failure =>
    obtain ⟨-, g, hturns, -⟩ := unregistered_finish id failure r
    exact ⟨g, r, .inl rfl, hturns⟩

/-- A task keeps its agent. -/
theorem agentOf?_apply (e : Event) (h : r.agentOf? t = some agent) :
    (e.apply r).agentOf? t = some agent := by
  obtain ⟨g, r₁, hstart, hturns⟩ := exists_turns_apply e r
  rw [hturns.agentOf?_eq]
  rcases hstart with rfl | ⟨agent', job, due, rfl⟩
  · exact h
  · exact (keeps_add agent' job due r).agent h

/-- A task keeps its agent over all events. -/
theorem agentOf?_after (h : r.agentOf? t = some agent) (events : List Event) :
    (r.after events).agentOf? t = some agent := by
  induction events generalizing r with
  | nil => exact h
  | cons e rest ih => exact ih (agentOf?_apply e h)

/-- No event makes a task that is there fire again. -/
theorem live_of_apply {e : Event} (hthere : r.agentOf? t = some agent)
    (hlive : (e.apply r).Live t) : r.Live t := by
  obtain ⟨g, r₁, hstart, hturns⟩ := exists_turns_apply e r
  have hlive₁ := hturns.of_live hlive
  rcases hstart with rfl | ⟨agent', job, due, rfl⟩
  · exact hlive₁
  · obtain ⟨task, htask, -⟩ := Option.map_eq_some_iff.1 hthere
    obtain ⟨task', htask', hlive'⟩ := hlive₁
    have hlt : t < r.tasks.length := (List.getElem?_eq_some_iff.1 htask).1
    rw [getElem?_add, if_neg (Nat.ne_of_lt hlt)] at htask'
    exact ⟨task', htask', hlive'⟩

/-- A task that is live after the events was live before them: nothing brings one back. -/
theorem live_of_after (hthere : r.agentOf? t = some agent) {events : List Event}
    (hlive : (r.after events).Live t) : r.Live t := by
  induction events generalizing r with
  | nil => exact hlive
  | cons e rest ih => exact live_of_apply hthere (ih (agentOf?_apply e hthere) hlive)

/-! ## Tasks that still fire -/

/-- Without a change to the registry, `Current` stays. -/
theorem Unregistered.current (hsame : Unregistered r r') (h : r.Current) : r'.Current := by
  obtain ⟨hregistry, g, hturns, -⟩ := hsame
  exact h.turn_of_registry_eq hturns hregistry

/-- Whatever happens, a task that still fires is the latest of its agent, and has an entry. -/
theorem Current.apply (h : r.Current) (e : Event) : (e.apply r).Current := by
  cases e with
  | command command => exact h.command command
  | exit id => exact h.exitTask id
  | fire id now => exact (unregistered_fire id now r).current h
  | grant => exact (unregistered_grant r).current h
  | finish id failure => exact (unregistered_finish id failure r).current h

/-- After any events, the task of an agent that still fires is its latest. -/
theorem Current.after (h : r.Current) (events : List Event) : (r.after events).Current := by
  induction events generalizing r with
  | nil => exact h
  | cons e rest ih => exact ih (h.apply e)

/-- After a shutdown no task that has been made before fires again, whatever happens next. -/
theorem fire_after_shutdown (h : r.Current) (hthere : r.agentOf? t = some agent)
    (later : List Event) (now : Nat) :
    (r.shutdown.after later).fire t now = r.shutdown.after later := by
  refine fire_of_not_live (fun hlive => ?_) now
  have hthere' : r.shutdown.agentOf? t = some agent := (keeps_command .shutdown r).agent hthere
  obtain ⟨task, htask, hlive⟩ := live_of_after hthere' hlive
  have hentry := h.shutdown.live htask hlive
  rw [shutdown_eq, withdraw_eq] at hentry
  simp at hentry

/-! ## Entries -/

/-- One more event withdraws a task if it is a command that removes its agent. -/
theorem withdrawn_append (e : Event) :
    Withdrawn start agent t (events ++ [e]) ↔ Withdrawn start agent t events ∨
      ∃ command, e = .command command ∧ command.Removes agent ∧
        (start.after events).agentOf? t = some agent := by
  constructor
  · rintro ⟨before, command, later, hsplit, hremoves, hthere⟩
    rcases List.eq_nil_or_concat later with rfl | ⟨later, last, rfl⟩
    · obtain ⟨rfl, hlast⟩ := List.append_inj' hsplit rfl
      exact .inr ⟨command, List.head_eq_of_cons_eq hlast, hremoves, hthere⟩
    · have hsplit' : events ++ [e] = (before ++ .command command :: later) ++ [last] := by
        simpa using hsplit
      exact .inl ⟨before, command, later, (List.append_inj' hsplit' rfl).1, hremoves, hthere⟩
  · rintro (⟨before, command, later, rfl, hremoves, hthere⟩ | ⟨command, rfl, hremoves, hthere⟩)
    · exact ⟨before, command, later ++ [e], by simp, hremoves, hthere⟩
    · exact ⟨events, command, [], rfl, hremoves, hthere⟩

/-- Which task is the latest depends on the agents alone. -/
theorem latest_congr (h : ∀ t, r'.agentOf? t = some agent ↔ r.agentOf? t = some agent) :
    r'.Latest agent t ↔ r.Latest agent t := by
  constructor
  · rintro ⟨hmade, hlast⟩
    exact ⟨(h t).1 hmade, fun t' ht' => hlast t' ((h t').2 ht')⟩
  · rintro ⟨hmade, hlast⟩
    exact ⟨(h t).2 hmade, fun t' ht' => hlast t' ((h t').1 ht')⟩

/-- No turn changes which task is the latest of its agent. -/
theorem Turns.latest {g : Nat → Task → Task} (h : Turns g r r') :
    r'.Latest agent t ↔ r.Latest agent t :=
  latest_congr fun t => by rw [h.agentOf?_eq]

/-- The registry is kept: an agent has an entry exactly if the latest of its tasks is not one of
those that are gone, and has not ended. -/
structure Books (gone : String → Nat → Prop) (r : Runner) : Prop where
  made : ∀ {agent : String} {t : Nat}, gone agent t → r.agentOf? t = some agent
  entry : ∀ agent t, r.registry[agent]? = some t ↔
    r.Latest agent t ∧ ¬gone agent t ∧ r.exit? t = none

section Books

variable {gone : String → Nat → Prop}

/-- Where a command takes out the entry of an agent, the tasks of the agent are gone. -/
theorem Books.withdraw (h : Books gone r) {command : Command} {ids : List Nat}
    {registry : Std.ExtTreeMap String Nat} (hregistry : ∀ agent t,
      registry[agent]? = some t ↔ r.registry[agent]? = some t ∧ ¬command.Removes agent) :
    Books (fun agent t => gone agent t ∨ command.Removes agent ∧ r.agentOf? t = some agent)
      (r.withdraw ids registry) := by
  have hturns := turns_withdraw ids registry r
  refine ⟨fun {agent t} hgone => ?_, fun agent t => ?_⟩
  · rw [hturns.agentOf?_eq]
    exact hgone.elim h.made And.right
  · rw [hturns.latest, hturns.exit?_eq fun task => by split <;> simp, withdraw_eq, hregistry,
      h.entry]
    constructor
    · rintro ⟨⟨hlatest, hgone, hends⟩, hkept⟩
      exact ⟨hlatest, fun hor => hor.elim hgone fun hand => hkept hand.1, hends⟩
    · rintro ⟨hlatest, hgone, hends⟩
      exact ⟨⟨hlatest, fun h => hgone (.inl h), hends⟩, fun h => hgone (.inr ⟨h, hlatest.made⟩)⟩

/-- No entry is taken out. -/
theorem Books.unregistered (h : Books gone r) (hsame : Unregistered r r') : Books gone r' := by
  obtain ⟨hregistry, g, hturns, hexit⟩ := hsame
  refine ⟨fun hgone => (hturns.agentOf?_eq _).trans (h.made hgone), fun agent t => ?_⟩
  rw [hregistry, h.entry, hturns.latest, hturns.exit?_eq (hexit t)]

/-- A task with an agent is one of the tasks. -/
theorem lt_of_agentOf? (h : r.agentOf? t = some agent) : t < r.tasks.length := by
  obtain ⟨task, htask, -⟩ := Option.map_eq_some_iff.1 h
  exact (List.getElem?_eq_some_iff.1 htask).1

/-- A new task is the latest of its agent. -/
theorem latest_add (agent : String) (job due : Nat) (r : Runner) :
    (r.add agent job due).Latest agent t ↔ r.tasks.length = t := by
  constructor
  · rintro ⟨hmade, hlast⟩
    have hle : r.tasks.length ≤ t := hlast _ (by rw [agentOf?_add, if_pos rfl])
    rw [agentOf?_add] at hmade
    split at hmade
    case isTrue hnew => exact hnew.symm
    case isFalse => exact absurd (lt_of_agentOf? hmade) (Nat.not_lt_of_le hle)
  · rintro rfl
    refine ⟨by rw [agentOf?_add, if_pos rfl], fun t' ht' => ?_⟩
    rw [agentOf?_add] at ht'
    split at ht'
    case isTrue hnew => exact Nat.le_of_eq hnew
    case isFalse => exact Nat.le_of_lt (lt_of_agentOf? ht')

/-- The latest tasks of other agents stay the latest. -/
theorem latest_add_of_ne {other : String} (hne : agent ≠ other) (job due : Nat) (r : Runner) :
    (r.add agent job due).Latest other t ↔ r.Latest other t := by
  refine latest_congr fun t' => ?_
  rw [agentOf?_add]
  split
  case isTrue hnew =>
    have hmade : r.agentOf? t' ≠ some other := fun hmade =>
      Nat.ne_of_lt (lt_of_agentOf? hmade) hnew
    simp [hne, hmade]
  case isFalse => rfl

/-- The entry of the agent goes to the new task, which has not ended. -/
theorem Books.schedule (h : Books gone r) (agent : String) (job due : Nat) :
    Books gone (r.schedule agent job due).2 := by
  have hturns := turns_withdraw r.registry[agent]?.toList
    (r.registry.insert agent r.tasks.length) (r.add agent job due)
  -- a withdrawal ends no task by itself, so the ends are those of before
  have hends (t : Nat) : ((r.add agent job due).withdraw r.registry[agent]?.toList
      (r.registry.insert agent r.tasks.length)).exit? t = r.exit? t := by
    rw [hturns.exit?_eq fun task => by split <;> simp, exit?, exit?, getElem?_add]
    split
    case isTrue hnew => simp [hnew]
    case isFalse => rfl
  rw [schedule_eq]
  refine ⟨fun {other t} hgone => ?_, fun other t => ?_⟩
  · rw [hturns.agentOf?_eq]
    exact (keeps_add agent job due r).agent (h.made hgone)
  · rw [hturns.latest, hends, withdraw_eq, Std.ExtTreeMap.getElem?_insert]
    by_cases heq : agent = other
    · subst heq
      rw [latest_add, if_pos (by simp), Option.some.injEq]
      refine ⟨fun hnew => ⟨hnew, fun hgone => ?_, ?_⟩, And.left⟩
      · exact Nat.ne_of_gt (lt_of_agentOf? (h.made hgone)) hnew
      · simp [exit?, ← hnew]
    · rw [latest_add_of_ne heq, if_neg (by simpa using heq)]
      exact h.entry other t

/-- The end of a task leaves the entries of other tasks alone. -/
theorem registry_exitTask_of_ne {id : Nat} (hne : id ≠ t) (hentry : r.registry[agent]? = some t) :
    (r.exitTask id).registry[agent]? = some t := by
  rcases exitTask_cases id r with heq | ⟨task, exit, -, heq⟩ <;> rw [heq]
  · exact hentry
  · dsimp only
    split
    case isTrue hmine =>
      have hagent : task.agent ≠ agent := by
        rintro rfl
        exact hne (Option.some.inj (hmine.symm.trans hentry))
      rw [Std.ExtTreeMap.getElem?_erase, if_neg (by simpa using hagent), hentry]
    case isFalse => exact hentry

/-- A task that ends loses its entry. -/
theorem Books.exitTask (h : Books gone r) (id : Nat) : Books gone (r.exitTask id) := by
  rcases exitTask_cases id r with heq | ⟨task, exit, htask, heq⟩
  · rwa [heq]
  have hturns : Turns (fun t task => if id = t then { task with exit := some exit } else task) r
      (r.exitTask id) := by
    have hmodify := turns_exit id exit r
    rw [heq]
    exact ⟨hmodify.tasks, hmodify.agent, hmodify.live⟩
  refine ⟨fun hgone => (hturns.agentOf?_eq _).trans (h.made hgone), fun agent t => ?_⟩
  rw [hturns.latest]
  by_cases hid : id = t
  · subst hid
    have hended : (r.exitTask id).exit? id = some exit := by simp [exit?, hturns.tasks, htask]
    -- a task that is registered is so under its own agent
    have hmine (hentry : r.registry[agent]? = some id) : agent = task.agent := by
      have hmade := ((h.entry agent id).1 hentry).1.made
      rw [agentOf?, htask] at hmade
      exact (Option.some.inj hmade).symm
    refine iff_of_false (fun hentry => ?_) fun hnot => by simp [hended] at hnot
    rw [heq] at hentry
    dsimp only at hentry
    split at hentry
    case isTrue =>
      obtain rfl := hmine (getElem?_of_erase hentry)
      simp at hentry
    case isFalse hother => exact hother (hmine hentry ▸ hentry)
  · have hends : (r.exitTask id).exit? t = r.exit? t := by simp [exit?, hturns.tasks, hid]
    rw [hends, ← h.entry]
    refine ⟨fun hentry => ?_, registry_exitTask_of_ne hid⟩
    rw [heq] at hentry
    dsimp only at hentry
    split at hentry
    · exact getElem?_of_erase hentry
    · exact hentry

/-- A command keeps the registry: it may make a task, or take entries out, or neither. -/
theorem Books.command (h : Books gone r) (command : Command) :
    Books (fun agent t => gone agent t ∨ command.Removes agent ∧ r.agentOf? t = some agent)
      (command.apply r) := by
  cases command with
  | schedule agent job due => simpa [Command.Removes, Command.apply] using h.schedule agent job due
  | cancel id =>
    simpa [Command.Removes, Command.apply] using h.unregistered (unregistered_abort id r)
  | unschedule agent =>
    rw [Command.apply, unschedule_eq]
    refine h.withdraw fun other t => ?_
    rw [Std.ExtTreeMap.getElem?_erase, Command.Removes]
    by_cases heq : agent = other <;> simp [heq]
  | shutdown =>
    rw [Command.apply, shutdown_eq]
    exact h.withdraw fun other t => by simp [Command.Removes]

/-- Every event keeps the registry, and only a command takes out an entry of a task that goes on. -/
theorem Books.apply (h : Books gone r) (e : Event) :
    Books (fun agent t => gone agent t ∨ ∃ command, e = .command command ∧
      command.Removes agent ∧ r.agentOf? t = some agent) (e.apply r) := by
  cases e with
  | command command => simpa [Event.apply] using h.command command
  | exit id => simpa [Event.apply] using h.exitTask id
  | fire id now => simpa [Event.apply] using h.unregistered (unregistered_fire id now r)
  | grant => simpa using h.unregistered (unregistered_grant r)
  | finish id failure =>
    simpa [Event.apply] using h.unregistered (unregistered_finish id failure r)

end Books

/-- A new scheduler has an empty registry and no tasks, which agree. -/
theorem books_new {s : SchedulerSettings} (hnew : new? s = some start) :
    Books (fun agent t => Withdrawn start agent t []) start := by
  obtain rfl := eq_of_new hnew
  refine ⟨fun ⟨_, _, _, hnil, _⟩ => by simp at hnil, fun agent t => ?_⟩
  refine iff_of_false (by simp) fun ⟨⟨hmade, _⟩, _⟩ => ?_
  simp [agentOf?] at hmade

/-- Over any events, the registry holds what the withdrawals leave of the tasks made. -/
theorem books_after {s : SchedulerSettings} (hnew : new? s = some start) (events : List Event) :
    Books (fun agent t => Withdrawn start agent t events) (start.after events) := by
  induction events using List.reverseRecOn with
  | nil => exact books_new hnew
  | append_singleton events e ih =>
    rw [after_append]
    show Books _ (e.apply (start.after events))
    simpa only [withdrawn_append] using ih.apply e

/-! ## What the registry tells -/

/-- The types listed are those registered. -/
theorem mem_types : agent ∈ r.types ↔ ∃ t, r.registry[agent]? = some t := by
  rw [types, Std.ExtTreeMap.mem_keys, ← Option.isSome_iff_exists,
    Std.ExtTreeMap.isSome_getElem?_iff_mem]

/-- To unschedule says whether the agent was registered. -/
theorem unschedule_eq_true : (r.unschedule agent).1 = true ↔ ∃ t, r.registry[agent]? = some t :=
  Option.isSome_iff_exists

/-- What the registry of a runner tells that has gone through events. -/
structure Tells (start : Runner) (events : List Event) (r : Runner) : Prop where
  entry : ∀ (agent : String) (t : Nat), r.registry[agent]? = some t ↔
    r.Latest agent t ∧ ¬Withdrawn start agent t events ∧ r.exit? t = none
  listed : ∀ agent : String, agent ∈ r.types ↔
    ∃ t, r.Latest agent t ∧ ¬Withdrawn start agent t events ∧ r.exit? t = none
  /-- The end of a task leaves the entry of any other task. -/
  others : ∀ (agent : String) (t id : Nat), id ≠ t → r.registry[agent]? = some t →
    (r.exitTask id).registry[agent]? = some t
  unscheduled : ∀ agent : String,
    (r.unschedule agent).1 = true ↔ ∃ t, r.registry[agent]? = some t
  live : ∀ (t : Nat) (task : Task), r.tasks[t]? = some task → task.exit = none →
    task.aborted = false → r.registry[task.agent]? = some t
  /-- Whatever comes after a shutdown, no task that was there fires. -/
  quiet : ∀ (t : Nat) (agent : String), r.agentOf? t = some agent →
    ∀ (later : List Event) (now : Nat),
      (r.shutdown.after later).fire t now = r.shutdown.after later

/-- After any events the registry of a runner maps an agent exactly if the latest of its tasks has
neither been withdrawn nor ended, and every task that still fires has the entry of its agent. -/
theorem tells_after {s : SchedulerSettings} (hnew : new? s = some start) (events : List Event) :
    Tells start events (start.after events) := by
  have hbooks := books_after hnew events
  have hcurrent : (start.after events).Current := (current_new hnew).after events
  refine ⟨hbooks.entry, fun agent => ?_, fun agent t id => registry_exitTask_of_ne,
    fun agent => unschedule_eq_true, fun t task htask hends hkept => ?_,
    fun t agent hmade later now => fire_after_shutdown hcurrent hmade later now⟩
  · simp only [mem_types, hbooks.entry]
  · exact hcurrent.live htask (by simp [Task.isLive, hends, hkept])

/-- A schedule is replaced, its task ends late, and the new one is cancelled. -/
def replaceAndCancel : List Event :=
  [.command (.schedule "a" 0 0), .fire 0 0, .command (.schedule "a" 1 5), .exit 0,
    .command (.cancel 1)]

/-- The entry stays with the second task until that has ended, too. -/
theorem tells_after_replaceAndCancel :
    ∃ start, new? (.default .one) = some start ∧
      Tells start replaceAndCancel (start.after replaceAndCancel) ∧
      (start.after replaceAndCancel).types = ["a"] ∧
      ((start.after replaceAndCancel).exitTask 1).types = [] := by
  have hnew : new? (.default .one) = some _ := rfl
  exact ⟨_, hnew, tells_after hnew replaceAndCancel, by decide +kernel, by decide +kernel⟩

end Runner

end Schedule

end EntityCache
