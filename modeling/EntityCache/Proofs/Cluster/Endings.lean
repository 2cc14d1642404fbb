import EntityCache.Proofs.Cluster.Crews
import EntityCache.Proofs.Schedule.Failures

/-!
# Schedules that end with a failure

A cycle reports its failure by calling `failed`.  If that returns an error, the cycle leaves the
error with the task that has fired it, whatever has become of the task meanwhile (`World.mem_sent`).
A task that still fires ends with the first error that it has been left, and nothing else makes it
end but its users (`Fleet.learns_of_run`).

A panic of `failed` is no error: the cycle ends without leaving anything, and the schedule goes on
(`Fleet.not_ended_of_panic`).
-/

namespace EntityCache

namespace Firing

/-- A firing leaves an error exactly if its call of `failed` has returned one. -/
theorem Reported.eq_unreported_iff {agent : String} {xs : List (Exchange Request.Reply)}
    {ended : Ended} (h : Reported agent xs ended) {e : CallbackError} :
    ended = .unreported e ↔ ∃ error text, ⟨.call (.failed error), .fails text⟩ ∈ xs ∧
      e = ⟨.failed, agent, text⟩ := by
  -- calls of an attempt are not calls of `failed`
  have hcall {ys : List (Exchange Request.Reply)} {error : ErrorChain} {answer : Reaction String}
      (hmem : ⟨.call (.failed error), answer⟩ ∈ ys) : .failed error ∈ (calls ys).map (·.1) :=
    List.mem_map.2 ⟨⟨.failed error, some answer⟩, List.mem_filterMap.2 ⟨_, hmem, rfl⟩, rfl⟩
  have horder (error : ErrorChain) : AgentRequest.failed error ∉ order := by simp [order]
  cases h with
  | skipped silent =>
    refine iff_of_false (by simp) ?_
    rintro ⟨error, text, hmem, -⟩
    simpa [silent] using hcall hmem
  | completed ordered fine =>
    refine iff_of_false (by simp) ?_
    rintro ⟨error, text, hmem, -⟩
    exact horder error (ordered ▸ hcall hmem)
  | @failed before after made broken reason answer attempted ordered fine broke unlocked last =>
    have hsole {error : ErrorChain} {text : String}
        (hmem : ⟨.call (.failed error), .fails text⟩ ∈
          before ++ ⟨.call (.failed reason), answer⟩ :: after) : answer = .fails text := by
      rcases List.mem_append.1 hmem with hbefore | hmem
      · exact absurd (ordered.subset (hcall hbefore)) (horder error)
      · rcases List.mem_cons.1 hmem with heq | hafter
        · cases heq
          rfl
        · simpa [last] using hcall hafter
    constructor
    · intro hended
      cases answer with
      | ok | panics => simp [reported] at hended
      | fails text =>
        refine ⟨reason, text, by simp, ?_⟩
        simpa [reported] using hended.symm
    · rintro ⟨error, text, hmem, rfl⟩
      rw [hsole hmem]
      rfl

end Firing

namespace Cluster

open Firing Function
open Schedule (Runner)

/-- Whatever an act does to the cycles of a node, its runner goes through at most one event. -/
theorem Roster.Step.runner {name : String} {now : Nat} {a : Act} {c c' : Roster} {r : Runner}
    (h : Step name now a c c') (ha : Commanded name a) (hr : c.runner = some r) :
    ∃ e : Option Runner.Event, c'.runner = some (r.after e.toList) := by
  cases h with
  | rest | vacate => exact ⟨none, hr⟩
  | @fire _ t => exact ⟨some (.fire t now), by simp [amend, hr, Runner.after, Runner.Event.apply]⟩
  | @exit _ t => exact ⟨some (.exit t), by simp [amend, hr, Runner.after, Runner.Event.apply]⟩
  | grant there granted =>
    obtain rfl := Option.some.inj (hr.symm.trans there)
    exact ⟨some .grant, by simp [put, amend, hr, Runner.after, Runner.Event.apply, granted]⟩
  | @land _ _ t _ failure =>
    exact ⟨some (.finish t failure), by simp [put, amend, hr, Runner.after, Runner.Event.apply]⟩
  | reschedule =>
    obtain ⟨command, rfl⟩ := ha _ _ rfl
    exact ⟨some (.command command), by simp [amend, hr, Runner.after, Runner.Event.apply]⟩

namespace World

open Roster

variable {w : World} {a : Act} {name agent : String} {start r : Runner} {acts : List Act} {t : Nat}
  {error : CallbackError}

/-- What a run does to the scheduler of a node is a list of events. -/
theorem exists_events_run (hr : (w.roster name).runner = some r)
    (hcommands : ∀ a ∈ acts, Commanded name a) :
    ∃ events, ((w.run acts).roster name).runner = some (r.after events) := by
  induction acts generalizing w r with
  | nil => exact ⟨[], hr⟩
  | cons a acts ih =>
    obtain ⟨e, hnext⟩ :=
      (stepRoster_act name a w).runner (hcommands a List.mem_cons_self) hr
    obtain ⟨events, hrun⟩ := ih hnext fun a ha => hcommands a (List.mem_cons_of_mem _ ha)
    exact ⟨e.toList ++ events, by rw [Runner.after_append]; exact hrun⟩

/-! ## What is sent to a task -/

/-- The failure that a task is sent in an act, if a cycle of its own ends in the act and has one. -/
def sent? (name : String) (t : Nat) (w : World) (a : Act) : Option CallbackError :=
  (w.ending? name a).bind fun x => if x.1 = t then x.2 else none

/-- The failures that a task is sent in a run, in order. -/
def sent (name : String) (t : Nat) : List Act → World → List CallbackError
  | [], _ => []
  | a :: acts, w => (w.sent? name t a).toList ++ sent name t acts (w.act a)

/-- What is sent over a run is sent in one of its acts. -/
theorem mem_sent : error ∈ w.sent name t acts ↔
    ∃ before a later, acts = before ++ a :: later ∧ (w.run before).sent? name t a = some error := by
  induction acts generalizing w with
  | nil => simp [sent]
  | cons a acts ih =>
    rw [sent, List.mem_append, Option.mem_toList, ih]
    constructor
    · rintro (hnow | ⟨before, b, later, rfl, hlater⟩)
      · exact ⟨[], a, acts, rfl, hnow⟩
      · exact ⟨a :: before, b, later, rfl, hlater⟩
    · rintro ⟨before, b, later, hsplit, hsent⟩
      rcases List.cons_eq_append_iff.1 hsplit with ⟨rfl, hcons⟩ | ⟨before, rfl, rfl⟩
      · obtain ⟨rfl, rfl⟩ := List.cons.inj hcons
        exact .inl hsent
      · exact .inr ⟨before, b, later, rfl, hsent⟩

/-- A task is sent something where a cycle of its own lands that could not report its failure. -/
theorem sent?_eq_some : w.sent? name t a = some error ↔ ∃ id f, a = .move (.resume id) ∧
    w.flights[id]? = some f ∧ f.cycle? name = some (t, f.agent) ∧
      f.program = .done (.unreported error) := by
  constructor
  -- what is sent comes from a flight that lands with a failure that nobody has reported
  · intro hsent
    obtain ⟨⟨t', failure⟩, hending, hfailure⟩ := Option.bind_eq_some_iff.1 hsent
    unfold ending? at hending
    split at hending
    case h_2 => cases hending
    case h_1 id =>
      obtain ⟨f, hflies, hending⟩ := Option.bind_eq_some_iff.1 hending
      obtain ⟨ended, hended, hending⟩ := Option.bind_eq_some_iff.1 hending
      obtain ⟨⟨t₁, agent⟩, hcycle, heq⟩ := Option.map_eq_some_iff.1 hending
      obtain ⟨hmine, hsome⟩ := Option.ite_none_right_eq_some.1 hfailure
      obtain ⟨rfl, rfl⟩ := Prod.mk.inj heq
      obtain rfl : t₁ = t := hmine
      obtain ⟨-, -, rfl⟩ := Flight.cycle?_eq_some.1 hcycle
      refine ⟨id, f, rfl, hflies, hcycle, ?_⟩
      rw [Program.value?_eq_some.1 hended]
      cases ended with
      | outcome | panicked => cases hsome
      | unreported e => rw [Option.some.inj hsome]
  · rintro ⟨id, f, rfl, hflies, hcycle, hprogram⟩
    simp [sent?, ending?, hflies, hprogram, hcycle, Program.value?, failureOf]

/-- A shift adds to what a task has been left what it is sent. -/
theorem failuresOf_shift {next : Nat} {e : Option Runner.Event} {c c' : Roster}
    (hcrewed : c.Crewed) (hshift : Shift next e c c') (hr : c.runner = some r) (t : Nat) :
    (r.after e.toList).failuresOf t = r.failuresOf t ++
      ((e.bind Runner.Event.ending?).bind fun x => if x.1 = t then x.2 else none).toList := by
  -- an event in which no cycle ends adds nothing
  have hnothing {e : Runner.Event} (hquiet : e.ending? = none)
      (hsame : (e.apply r).failuresOf t = r.failuresOf t) :
      (r.after (some e).toList).failuresOf t = r.failuresOf t ++
        (((some e).bind Runner.Event.ending?).bind fun x =>
          if x.1 = t then x.2 else none).toList := by
    simpa [Runner.after, hquiet] using hsame
  cases hshift with
  | rest => simp [Runner.after]
  | @command _ cmd => exact hnothing rfl (Runner.failuresOf_command cmd t r)
  | @exit _ id => exact hnothing rfl (Runner.failuresOf_exitTask id t r)
  | @fire _ id now => exact hnothing rfl (Runner.failuresOf_fire id now t r)
  | grant there granted =>
    obtain rfl := Option.some.inj (hr.symm.trans there)
    refine hnothing rfl ?_
    simpa [Runner.Event.apply, granted] using Runner.failuresOf_grant granted t
  | @finish _ id t' agent failure flies =>
    have hfinish := Runner.failuresOf_finish (hcrewed.mem_running hr flies)
      (hcrewed.agents hr flies) failure t
    refine hfinish.trans (congrArg (r.failuresOf t ++ ·) ?_)
    by_cases heq : t' = t <;> simp [Runner.Event.ending?, heq]

/-- What a task has been left after a run is what it has been sent. -/
theorem failuresOf_run (h : w.Staffed name start) (hr : (w.roster name).runner = some r)
    (hdetached : w.Each (Act.Detached name) acts) (hcommands : ∀ a ∈ acts, Commanded name a) :
    ∃ r', ((w.run acts).roster name).runner = some r' ∧ (w.run acts).Staffed name start ∧
      ∀ t, r'.failuresOf t = r.failuresOf t ++ w.sent name t acts := by
  induction acts generalizing w r with
  | nil => exact ⟨r, hr, h, fun t => (List.append_nil _).symm⟩
  | cons a acts ih =>
    have ha := hcommands a List.mem_cons_self
    obtain ⟨xs, htracked⟩ := h.unused
    have hfree : w.flights[w.nextFlight]? = none := (htracked.unused _ (Nat.le_refl _)).1
    obtain ⟨e, hshift, hending⟩ := shift_act hfree hdetached.1 ha
    obtain ⟨r', hrun, hstaffed, hfailures⟩ := ih (h.act hdetached.1 ha) (hshift.runner hr)
      hdetached.2 fun a ha => hcommands a (List.mem_cons_of_mem _ ha)
    refine ⟨r', hrun, hstaffed, fun t => ?_⟩
    rw [hfailures, failuresOf_shift h.crewed hshift hr t, hending, List.append_assoc]
    rfl

/-- In a run a cycle of a task has ended whose call of `failed` had returned an error. -/
def Refused (name : String) (t : Nat) (text : String) (acts : List Act) (w : World) : Prop :=
  ∃ (before : List Act) (id : Nat) (later : List Act) (f : Flight) (ended : Ended)
    (error : ErrorChain), acts = before ++ .move (.resume id) :: later ∧
      (w.run before).flights[id]? = some f ∧ f.cycle? name = some (t, f.agent) ∧
      f.program = .done ended ∧ ⟨.call (.failed error), .fails text⟩ ∈ w.exchanges id before

/-- What becomes of a schedule whose task comes to run after a run: its runner was `r` before and is
`r'` now. -/
structure Learns (name : String) (acts : List Act) (w : World) (t : Nat) (task : Schedule.Task)
    (r r' : Runner) : Prop where
  /-- The task has been sent the errors of `failed`, and nothing for a panic of it. -/
  sent : ∀ error, error ∈ w.sent name t acts ↔
    ∃ text, w.Refused name t text acts ∧ error = ⟨.failed, task.agent, text⟩
  /-- A schedule that still fires goes on if its task has been sent nothing. -/
  goesOn : task.isLive = true → w.sent name t acts = [] → r' = r
  /-- Otherwise it ends with the first error, -/
  ends : task.isLive = true → ∀ error rest, w.sent name t acts = error :: rest →
    r'.exit? t = some (.callbackFailed error)
  /-- its agent has no schedule any more, -/
  unlisted : task.isLive = true → w.sent name t acts ≠ [] → task.agent ∉ r'.types
  /-- and it never starts a cycle again. -/
  quiet : task.isLive = true → w.sent name t acts ≠ [] → ∀ later : List Act,
    (∀ a ∈ later, Commanded name a) →
      (((w.run (acts ++ [.move (.exit name t)])).run later).act
        (.move (.fire name t))).roster name =
          ((w.run (acts ++ [.move (.exit name t)])).run later).roster name
  /-- Other schedules are as they were, those of the same agent as well. -/
  others : ∀ t', t ≠ t' → r'.tasks[t']? = r.tasks[t']? ∧
    ∀ agent : String, r.registry[agent]? = some t' → r'.registry[agent]? = some t'

/-- On the roster, the end of a task is that of the scheduler. -/
theorem roster_act_exit (name : String) (t : Nat) (w : World) :
    (w.act (.move (.exit name t))).roster name = (w.roster name).amend fun r => r.exitTask t := by
  rw [act, step, roster_modifyNode name _ (·.exitTask t) (fun _ => by rfl), if_pos rfl]

/-- On the roster, a firing is that of the scheduler at the time of the world. -/
theorem roster_act_fire (name : String) (t : Nat) (w : World) :
    (w.act (.move (.fire name t))).roster name = (w.roster name).amend fun r => r.fire t w.now := by
  rw [act, step, roster_modifyNode name _ (·.fire t w.now) (fun _ => by rfl), if_pos rfl]

/-- A task that does not fire any more never starts a cycle again. -/
theorem roster_fire_of_not_live (hr : (w.roster name).runner = some r)
    (hagent : r.agentOf? t = some agent) (hdead : ¬r.Live t)
    (hcommands : ∀ a ∈ acts, Commanded name a) :
    ((w.run acts).act (.move (.fire name t))).roster name = (w.run acts).roster name := by
  obtain ⟨events, hrun⟩ := exists_events_run hr hcommands
  have hdead' : ¬(r.after events).Live t := fun hlive =>
    hdead (Runner.live_of_after hagent hlive)
  rw [roster_act_fire, Roster.amend, hrun, Option.map_some,
    Runner.fire_of_not_live hdead' (w.run acts).now, ← hrun]

/-- A cycle that flies is of the agent that its task has to the end of a run. -/
theorem agent_of_flies {later : List Act} {task : Schedule.Task} {id : Nat} {f : Flight}
    (h : w.Staffed name start) (hdetached : w.Each (Act.Detached name) (acts ++ later))
    (hcommands : ∀ a ∈ acts ++ later, Commanded name a)
    (hr : ((w.run (acts ++ later)).roster name).runner = some r) (htask : r.tasks[t]? = some task)
    (hflies : (w.run acts).flights[id]? = some f) (hcycle : f.cycle? name = some (t, f.agent)) :
    f.agent = task.agent := by
  obtain ⟨events, hrunner⟩ := h.events
  obtain ⟨r', hr', hstaffed, -⟩ := failuresOf_run h hrunner (each_append.1 hdetached).1
    fun a ha => hcommands a (List.mem_append_left _ ha)
  -- at that moment the cycle is of a task of the same agent, and tasks keep their agents
  have hcycles : ((w.run acts).roster name).cycles id = some (t, f.agent) := by
    simp [roster, hflies, hcycle]
  have hagent : r'.agentOf? t = some f.agent := hstaffed.crewed.agents hr' hcycles
  obtain ⟨events', hrun⟩ := exists_events_run hr' fun a (ha : a ∈ later) =>
    hcommands a (List.mem_append_right _ ha)
  rw [run_append] at hr
  obtain rfl := Option.some.inj (hr.symm.trans hrun)
  have hagent' := Runner.agentOf?_after hagent events'
  rw [Runner.agentOf?, htask] at hagent'
  exact (Option.some.inj hagent').symm

end World

namespace Fleet

open Roster World

variable {plans : List NodePlan} {plan : NodePlan} {locks : Lock.Faulty} {name : String}
  {fleet : Fleet} {acts : List Act} {t : Nat} {task : Schedule.Task} {start r : Runner}

/-- What a task is sent are the errors that calls of `failed` in its cycles have returned. -/
theorem mem_sent_iff_refused (hnew : new? plans locks = some fleet)
    (h : fleet.world.Staffed name start) (hdetached : fleet.world.Each (Act.Detached name) acts)
    (hcommands : ∀ a ∈ acts, Commanded name a)
    (hr : ((fleet.world.run acts).roster name).runner = some r) (htask : r.tasks[t]? = some task)
    {error : CallbackError} :
    error ∈ fleet.world.sent name t acts ↔
      ∃ text, fleet.world.Refused name t text acts ∧ error = ⟨.failed, task.agent, text⟩ := by
  rw [mem_sent]
  constructor
  -- a flight ends with an unreported failure exactly if the callback has refused the report
  · rintro ⟨before, a, later, rfl, hsent⟩
    obtain ⟨id, f, rfl, hflies, hcycle, hprogram⟩ := sent?_eq_some.1 hsent
    have hreported := (accounted_of_flight hnew before hflies hprogram).reported
    obtain ⟨reason, text, hmem, rfl⟩ := hreported.eq_unreported_iff.1 rfl
    have hagent := agent_of_flies h hdetached hcommands hr htask hflies hcycle
    exact ⟨text, ⟨before, id, later, f, _, reason, rfl, hflies, hcycle, hprogram, hmem⟩,
      by rw [hagent]⟩
  · rintro ⟨text, ⟨before, id, later, f, ended, reason, rfl, hflies, hcycle, hprogram, hmem⟩, rfl⟩
    have hreported := (accounted_of_flight hnew before hflies hprogram).reported
    have hended := hreported.eq_unreported_iff.2 ⟨reason, text, hmem, rfl⟩
    rw [hended, agent_of_flies h hdetached hcommands hr htask hflies hcycle] at hprogram
    exact ⟨before, _, later, rfl, sent?_eq_some.2 ⟨id, f, rfl, hflies, hcycle, hprogram⟩⟩

/-- In every run of a fleet, and for every schedule of a node: an error that `failed` has returned
in one of its cycles ends the schedule when its task comes to run next, unless users have told it to
end before.  A schedule without such an error goes on, even if a call of `failed` has panicked.
Other schedules are left alone, a newer one of the same agent as well. -/
theorem learns_of_run (hnew : new? plans locks = some fleet) (hplan : plan ∈ plans)
    (hunique : ∀ other ∈ plans, other.name = plan.name → other = plan)
    (hcommands : ∀ change scripts, .reschedule plan.name change scripts ∈ acts →
      ∃ command : Runner.Command, change = command.apply)
    (hdetached : fleet.world.Each (Act.Detached plan.name) acts) :
    ∃ r, ((fleet.world.run acts).roster plan.name).runner = some r ∧
      ∀ t task, r.tasks[t]? = some task →
        ∃ r', ((fleet.world.run (acts ++ [.move (.exit plan.name t)])).roster plan.name).runner =
            some r' ∧
          Learns plan.name acts fleet.world t task r r' := by
  obtain ⟨start, hstart, hmade⟩ := exists_runner_new hnew hplan hunique
  have hcommanded : ∀ a ∈ acts, Commanded plan.name a := by
    rintro a ha change scripts rfl
    exact hcommands change scripts ha
  have hstaffed := staffed_new hnew hmade hstart
  obtain ⟨r, hr, ⟨⟨events, hevents⟩, -, -⟩, hfailures⟩ :=
    failuresOf_run hstaffed hstart hdetached hcommanded
  have hcurrent : r.Current := by
    obtain rfl := Option.some.inj (hr.symm.trans hevents)
    exact (Runner.current_new hmade).after events
  refine ⟨r, hr, fun t task htask => ?_⟩
  have hexit : ((fleet.world.run (acts ++ [.move (.exit plan.name t)])).roster plan.name).runner =
      some (r.exitTask t) := by
    rw [run_concat, roster_act_exit, Roster.amend, hr, Option.map_some]
  have hnothing : start.failuresOf t = [] := by
    simp [Runner.failuresOf, Runner.tasks_new hmade]
  -- what a task has to read is what was sent to it over the run, as it started with nothing
  have hsent : task.failures = fleet.world.sent plan.name t acts := by
    rw [← Runner.failuresOf_eq htask, hfailures, hnothing, List.nil_append]
  refine ⟨r.exitTask t, hexit,
    fun _ => mem_sent_iff_refused hnew hstaffed hdetached hcommanded hr htask,
    ?goesOn, ?ends, ?unlisted, ?quiet, fun t' hne => ⟨Runner.getElem?_exitTask_of_ne hne r,
      fun agent => Runner.registry_exitTask_of_ne hne⟩⟩
  -- with nothing to read the task goes on; else it ends, leaves the list and never fires again
  case goesOn =>
    intro hlive hnone
    exact Runner.exitTask_of_silent htask hlive (hsent.trans hnone)
  case ends =>
    intro hlive error rest hcons
    exact Runner.exit?_exitTask htask hlive (hsent.trans hcons)
  case unlisted =>
    intro hlive hsome
    obtain ⟨error, rest, hcons⟩ := List.exists_cons_of_ne_nil hsome
    exact Runner.not_mem_types_exitTask hcurrent htask hlive (hsent.trans hcons)
  case quiet =>
    intro hlive hsome later hlater
    obtain ⟨error, rest, hcons⟩ := List.exists_cons_of_ne_nil hsome
    have hdead := Runner.not_live_of_exit? (Runner.exit?_exitTask htask hlive (hsent.trans hcons))
    have hagent : (r.exitTask t).agentOf? t = some task.agent :=
      (Runner.keeps_exitTask t r).agent (by simp [Runner.agentOf?, htask])
    exact roster_fire_of_not_live hexit hagent hdead hlater

/-- A node on which two cycles may run at once. -/
def widePlan : NodePlan := { name := "node", settings := { maxConcurrency := 2 } }

/-- Two agents are scheduled and fire; the cycle of the first fails, and `failed` ends like this. -/
def failing (answer : Reaction String) : List Act :=
  [.reschedule "node" (Runner.Command.schedule "a" 0 0).apply
      [{ runs := [{ reaction := .fails ["broken"] }], onFailed := [answer] }],
    .reschedule "node" (Runner.Command.schedule "b" 1 0).apply [{}],
    .move (.fire "node" 0), .move (.fire "node" 1), .move (.grant "node"), .move (.grant "node")] ++
  List.replicate 5 (.move (.resume 0))

/-- `failed` returns an error, and the schedule ends. -/
theorem learns_of_run_failing :
    ∃ fleet, new? [widePlan] { backing := .memory ∅ } = some fleet ∧
      (∃ r, ((fleet.world.run (failing (.fails "down"))).roster "node").runner = some r ∧
        ∀ t task, r.tasks[t]? = some task → ∃ r',
          ((fleet.world.run (failing (.fails "down") ++ [.move (.exit "node" t)])).roster
            "node").runner = some r' ∧
          Learns "node" (failing (.fails "down")) fleet.world t task r r') ∧
      (((fleet.world.run (failing (.fails "down") ++ [.move (.exit "node" 0)])).roster
        "node").runner.map fun r => (r.exit? 0, r.types)) =
          some (some (.callbackFailed ⟨.failed, "a", "down"⟩), ["b"]) := by
  have hnew : new? [widePlan] { backing := .memory ∅ } = some _ := rfl
  refine ⟨_, hnew, ?_, by decide +kernel⟩
  refine learns_of_run hnew (List.mem_singleton_self widePlan) ?unique ?commands (by decide +kernel)
  case unique =>
    intro other hother _
    exact List.mem_singleton.1 hother
  case commands =>
    intro change scripts h
    simp only [failing, List.replicate, List.mem_append, List.mem_cons, Act.reschedule.injEq,
      reduceCtorEq, List.not_mem_nil, or_false] at h
    rcases h with ⟨-, rfl, -⟩ | ⟨-, rfl, -⟩ <;> exact ⟨_, rfl⟩

/-- `failed` panics, and the schedule goes on: its task has come to run, and a minute later it fires
again. -/
theorem not_ended_of_panic :
    ∃ fleet, new? [widePlan] { backing := .memory ∅ } = some fleet ∧
      (fleet.world.exchanges 0 (failing (.panics (some "down")))).any (fun
        | ⟨.call (.failed _), .panics _⟩ => true
        | _ => false) = true ∧
      (((fleet.world.run (failing (.panics (some "down")) ++ [.move (.exit "node" 0)])).roster
        "node").runner.map fun r => (r.exit? 0, r.types)) = some (none, ["a", "b"]) ∧
      (((fleet.world.run (failing (.panics (some "down")) ++ [.move (.exit "node" 0),
        .move (.pass 60000), .move (.fire "node" 0)])).roster "node").runner.map (·.waiting)) =
          some [0] := by
  have hnew : new? [widePlan] { backing := .memory ∅ } = some _ := rfl
  exact ⟨_, hnew, by decide +kernel, by decide +kernel, by decide +kernel⟩

end Fleet

end Cluster

end EntityCache
