import EntityCache.Proofs.Cluster.Overlap
import EntityCache.Proofs.Cluster.Reports
import EntityCache.Proofs.Schedule.Permits

/-!
# Cycles that hold a permit

A cycle that a task has fired is detached: nobody has a handle to it, and it flies from the moment
when it gets its permit to the moment when it gives it back.  As long as nobody abandons such a
cycle (`Act.Detached`) and users change schedules by commands only, an act takes the runner of a
node through at most one event, and the cycles that fly change with it (`Roster.Shift`).

It follows that the cycles that hold a permit are those that fly (`Roster.Crewed`), and that all
that is known of the events of a runner holds of the runner of a node in any run of a fleet
(`World.Staffed`).  `Fleet.always_conserved` says so of permits.
-/

namespace EntityCache

namespace Schedule.Runner

/-- The task that is told in an event how a cycle of its own has ended, and the failure that it is
sent. -/
def Event.ending? : Event → Option (Nat × Option CallbackError)
  | .finish t failure => some (t, failure)
  | .command _ | .exit _ | .fire .. | .grant => none

end Schedule.Runner

namespace Cluster

open Firing Function
open Schedule (Runner)

/-- The flight that an act abandons, if it abandons one. -/
def Act.abandoned? : Act → Option Nat
  | .move (.abandon id) => some id
  | _ => none

/-- An act abandons no cycle that a task of the node has fired. -/
def Act.Detached (name : String) (a : Act) (w : World) : Prop :=
  ∀ id ∈ a.abandoned?, (w.roster name).cycles id = none

instance (name : String) (a : Act) (w : World) : Decidable (a.Detached name w) :=
  inferInstanceAs (Decidable (∀ id ∈ a.abandoned?, (w.roster name).cycles id = none))

namespace Roster

/-- What an act does to a node whose cycles are detached: nothing, or its runner goes through an
event.  A cycle takes off with the number of the next flight. -/
inductive Shift (next : Nat) : Option Runner.Event → Roster → Roster → Prop where
  | rest {c : Roster} : Shift next none c c
  | command {c : Roster} {cmd : Runner.Command} :
    Shift next (some (.command cmd)) c (c.amend cmd.apply)
  | exit {c : Roster} {t : Nat} : Shift next (some (.exit t)) c (c.amend fun r => r.exitTask t)
  | fire {c : Roster} {t now : Nat} :
    Shift next (some (.fire t now)) c (c.amend fun r => r.fire t now)
  | grant {c : Roster} {t : Nat} {agent : String} {r r' : Runner} (there : c.runner = some r)
      (granted : r.grant? = some (t, r')) (fires : r'.agentOf? t = some agent) :
      Shift next (some .grant) c ((c.amend fun _ => r').put next (some (t, agent)))
  | finish {c : Roster} {id t : Nat} {agent : String} {failure : Option CallbackError}
      (flies : c.cycles id = some (t, agent)) :
      Shift next (some (.finish t failure)) c ((c.amend fun r => r.finish t failure).put id none)

/-- All cycles of a node that fly: the numbers of their flights, with tasks and agents. -/
structure Lists (flying : List (Nat × Nat × String)) (c : Roster) : Prop where
  nodup : flying.Nodup
  mem : ∀ id x, (id, x) ∈ flying ↔ c.cycles id = some x

/-- The cycles that hold a permit of the runner are those that fly, and they are of its tasks. -/
structure Crewed (c : Roster) : Prop where
  crew : ∃ flying, c.Lists flying ∧ ∀ r, c.runner = some r → (flying.map (·.2.1)).Perm r.running
  agents : ∀ {r : Runner} {id t : Nat} {agent : String}, c.runner = some r →
    c.cycles id = some (t, agent) → r.agentOf? t = some agent

variable {c c' : Roster} {e : Option Runner.Event} {id next : Nat} {x : Nat × String}
  {flying flying' : List (Nat × Nat × String)} {r : Runner}

/-- To take a cycle away where there is none changes nothing. -/
theorem put_eq_self (h : c.cycles id = none) : c.put id none = c := by
  rw [put, ← h, update_eq_self]

/-- The scheduler of a node sees at most one event in a shift. -/
theorem Shift.runner (h : Shift next e c c') (hr : c.runner = some r) :
    c'.runner = some (r.after e.toList) := by
  cases h with
  | rest => exact hr
  | command | exit | fire | finish =>
    simp [put, amend, hr, Runner.after, Runner.Event.apply]
  | grant there granted =>
    obtain rfl := Option.some.inj (hr.symm.trans there)
    simp [put, amend, hr, Runner.after, Runner.Event.apply, granted]

/-! ## Cycles that fly -/

/-- Two lists of the same flights are the same but for their order. -/
theorem Lists.perm (h : c.Lists flying) (h' : c.Lists flying') : flying.Perm flying' :=
  (List.perm_ext_iff_of_nodup h.nodup h'.nodup).2 fun cycle =>
    (h.mem cycle.1 cycle.2).trans (h'.mem cycle.1 cycle.2).symm

/-- A flight that starts is added to the list. -/
theorem Lists.takeOff (h : c.Lists flying) (hfree : c.cycles id = none) (x : Nat × String) :
    (c.put id (some x)).Lists ((id, x) :: flying) where
  nodup := by
    refine List.nodup_cons.2 ⟨fun hmem => ?_, h.nodup⟩
    rw [h.mem, hfree] at hmem
    cases hmem
  mem i y := by
    rw [put_cycles_eq_some, List.mem_cons, h.mem, Prod.mk.injEq, Option.some.injEq]
    refine or_congr (and_congr_right' eq_comm) (iff_and_self.2 ?_)
    rintro hflies rfl
    cases hfree.symm.trans hflies

/-- A flight that ends leaves the list. -/
theorem Lists.land (h : c.Lists flying) (hflies : c.cycles id = some x) :
    (c.put id none).Lists (flying.erase (id, x)) where
  nodup := h.nodup.erase _
  mem i y := by
    rw [put_cycles_eq_some, h.nodup.mem_erase_iff, h.mem, ne_eq, Prod.mk.injEq, not_and]
    simp only [reduceCtorEq, and_false, false_or]
    refine and_congr_left fun hother => ⟨fun hne hid => ?_, fun hne hid => absurd hid hne⟩
    subst hid
    exact hne rfl (Option.some.inj (hother.symm.trans hflies))

/-! ## What acts keep -/

/-- Permits do not change hands. -/
theorem Crewed.amend (h : c.Crewed) (e : Runner.Event)
    (hholds : ∀ r, Runner.Holds r (e.apply r)) : (c.amend e.apply).Crewed := by
  obtain ⟨⟨flying, hflying, hcrew⟩, hagents⟩ := h
  refine ⟨⟨flying, ⟨hflying.nodup, hflying.mem⟩, fun r' hr' => ?_⟩, fun {r'} _ _ _ hr' hflies => ?_⟩
  · obtain ⟨r, hr, rfl⟩ := Option.map_eq_some_iff.1 hr'
    rw [(hholds r).running]
    exact hcrew r hr
  · obtain ⟨r, hr, rfl⟩ := Option.map_eq_some_iff.1 hr'
    exact Runner.agentOf?_apply e (hagents hr hflies)

/-- A cycle gets a permit and takes off. -/
theorem Crewed.grant {t : Nat} {agent : String} {r' : Runner} (h : c.Crewed)
    (hfree : c.cycles next = none) (hr : c.runner = some r) (hgrant : r.grant? = some (t, r'))
    (hfires : r'.agentOf? t = some agent) :
    ((c.amend fun _ => r').put next (some (t, agent))).Crewed := by
  obtain ⟨⟨flying, hflying, hcrew⟩, hagents⟩ := h
  obtain ⟨rest, -, -, hr'⟩ := Runner.grant?_eq_some.1 hgrant
  have hlists : (c.amend fun _ => r').Lists flying := ⟨hflying.nodup, hflying.mem⟩
  have hrunner {r₁ : Runner}
      (hr₁ : ((c.amend fun _ => r').put next (some (t, agent))).runner = some r₁) : r' = r₁ := by
    simpa [put, Roster.amend, hr] using hr₁
  refine ⟨⟨_, hlists.takeOff hfree (t, agent), fun r₁ hr₁ => ?_⟩, fun hr₁ hflies => ?_⟩
  · rw [← hrunner hr₁, hr']
    exact (hcrew r hr).cons t
  · rw [← hrunner hr₁]
    -- the new cycle is of the task that was granted, the others are as before
    rcases put_cycles_eq_some.1 hflies with ⟨-, hnew⟩ | ⟨-, hold⟩
    · obtain ⟨rfl, rfl⟩ := Prod.mk.inj (Option.some.inj hnew)
      exact hfires
    · have hagent : r.agentOf? _ = some _ := hagents hr hold
      rw [hr']
      exact hagent

/-- A cycle lands and gives its permit back. -/
theorem Crewed.finish {t : Nat} {agent : String} (h : c.Crewed)
    (hflies : c.cycles id = some (t, agent)) (failure : Option CallbackError) :
    ((c.amend fun r => r.finish t failure).put id none).Crewed := by
  obtain ⟨⟨flying, hflying, hcrew⟩, hagents⟩ := h
  have hlists : (c.amend fun r => r.finish t failure).Lists flying :=
    ⟨hflying.nodup, hflying.mem⟩
  refine ⟨⟨_, hlists.land hflies, fun r' hr' => ?_⟩, fun {r'} _ _ _ hr' hold => ?_⟩ <;>
    obtain ⟨r, hr, rfl⟩ := Option.map_eq_some_iff.1 hr'
  · have hmem : (id, t, agent) ∈ flying := (hflying.mem _ _).2 hflies
    -- the cycle that ends is taken out of the list, and its task out of those that run
    have hsplit := (List.perm_cons_erase hmem).map fun cycle : Nat × Nat × String => cycle.2.1
    have hperm : (t :: (flying.erase (id, t, agent)).map (·.2.1)).Perm r.running :=
      hsplit.symm.trans (hcrew r hr)
    have hruns : t ∈ r.running := hperm.subset List.mem_cons_self
    rw [Runner.finish, if_pos hruns]
    simpa using hperm.erase t
  · rw [Runner.agentOf?_finish]
    rcases put_cycles_eq_some.1 hold with ⟨-, hnone⟩ | ⟨-, hold⟩
    · cases hnone
    · exact hagents hr hold

/-- An act keeps the cycles that hold a permit flying, and only those. -/
theorem Crewed.shift (h : c.Crewed) (hfree : c.cycles next = none) (hshift : Shift next e c c') :
    c'.Crewed := by
  cases hshift with
  | rest => exact h
  | @command _ cmd => exact h.amend (.command cmd) (Runner.holds_command cmd)
  | @exit _ t => exact h.amend (.exit t) (Runner.holds_exitTask t)
  | @fire _ t now => exact h.amend (.fire t now) (Runner.holds_fire t now)
  | grant there granted fires => exact h.grant hfree there granted fires
  | finish flies => exact h.finish flies _

/-- A cycle that flies holds a permit. -/
theorem Crewed.mem_running (h : c.Crewed) (hr : c.runner = some r) (hflies : c.cycles id = some x) :
    x.1 ∈ r.running := by
  obtain ⟨flying, hflying, hcrew⟩ := h.crew
  exact (hcrew r hr).subset (List.mem_map.2 ⟨(id, x), (hflying.mem _ _).2 hflies, rfl⟩)

/-- A cycle that holds a permit flies. -/
theorem Crewed.exists_flies {t : Nat} (h : c.Crewed) (hr : c.runner = some r)
    (hruns : t ∈ r.running) : ∃ id agent, c.cycles id = some (t, agent) := by
  obtain ⟨flying, hflying, hcrew⟩ := h.crew
  obtain ⟨⟨id, x⟩, hmem, rfl⟩ := List.mem_map.1 ((hcrew r hr).symm.subset hruns)
  exact ⟨id, x.2, (hflying.mem _ _).1 hmem⟩

end Roster

namespace World

open Roster

variable {w : World} {a : Act} {name : String} {start : Runner} {acts : List Act}

/-- In an act a cycle that a task of the node has fired ends: the task, and the failure that it is
sent. -/
def ending? (name : String) (w : World) : Act → Option (Nat × Option CallbackError)
  | .move (.resume id) =>
    (w.flights[id]?).bind fun flight => flight.program.value?.bind fun ended =>
      (flight.cycle? name).map fun x => (x.1, failureOf ended)
  | _ => none

/-- A flight makes a request, or ends. -/
theorem shift_resume (id : Nat) (w : World) :
    ∃ e, Shift w.nextFlight e (w.roster name) ((w.resume id).roster name) ∧
      e.bind Runner.Event.ending? = w.ending? name (.move (.resume id)) := by
  have hrest (hsame : (w.resume id).roster name = w.roster name)
      (hnone : w.ending? name (.move (.resume id)) = none) :
      ∃ e, Shift w.nextFlight e (w.roster name) ((w.resume id).roster name) ∧
        e.bind Runner.Event.ending? = w.ending? name (.move (.resume id)) := by
    rw [hsame, hnone]
    exact ⟨none, .rest, rfl⟩
  cases hflies : w.flights[id]? with
  | none => exact hrest (by simp [resume, hflies]) (by simp [ending?, hflies])
  | some f =>
    cases hprogram : f.program with
    | ask r next =>
      refine hrest ?_ (by simp [ending?, hflies, hprogram, Program.value?])
      cases hserve : serve id f r w with
      | none => simp [resume, hflies, hprogram, hserve]
      | some answer =>
        simp only [resume, hflies, hprogram, hserve]
        exact (roster_modifyFlight id _ (fun _ => by rfl) answer.2).trans (roster_serve hserve)
    | done ended =>
      have hlands : w.resume id = w.land id f ended := by simp only [resume, hflies, hprogram]
      -- a flight that lands without a cycle of this node changes nothing on its roster
      cases hcycle : f.cycle? name with
      | none =>
        have hfree : (w.roster name).cycles id = none := by simp [roster, hflies, hcycle]
        refine hrest ?_ (by simp [ending?, hflies, hprogram, hcycle])
        rw [hlands, roster_land_of_ne hcycle, put_eq_self hfree]
      | some x =>
        have hcycles : (w.roster name).cycles id = some x := by simp [roster, hflies, hcycle]
        rw [hlands, roster_land hcycle]
        refine ⟨_, .finish hcycles, ?_⟩
        simp [ending?, hflies, hprogram, hcycle, Program.value?, Runner.Event.ending?]

/-- The runner of a node goes through an event, which may be this one. -/
theorem shift_modifyRunner {next : Nat} {e : Runner.Event} {other : String}
    {change : Runner → Runner} (hquiet : e.ending? = none)
    (h : ∀ c : Roster, other = name → Shift next (some e) c (c.amend change)) (w : World) :
    ∃ e, Shift next e (w.roster name)
        ((w.modifyNode other fun node => { node with runner := change node.runner }).roster name) ∧
      e.bind Runner.Event.ending? = none := by
  rw [roster_modifyNode other _ change (fun _ => by rfl)]
  split
  case isTrue heq => exact ⟨some e, h _ heq, hquiet⟩
  case isFalse => exact ⟨none, .rest, rfl⟩

/-- What an act does to a node whose cycles are detached is a shift. -/
theorem shift_act (hfree : w.flights[w.nextFlight]? = none) (hdetached : a.Detached name w)
    (hcommanded : Commanded name a) :
    ∃ e, Shift w.nextFlight e (w.roster name) ((w.act a).roster name) ∧
      e.bind Runner.Event.ending? = w.ending? name a := by
  have hnext : (w.roster name).cycles w.nextFlight = none := by simp [roster, hfree]
  have hrest {w' : World} (hsame : w'.roster name = w.roster name) :
      ∃ e, Shift w.nextFlight e (w.roster name) (w'.roster name) ∧
        e.bind Runner.Event.ending? = none := by
    rw [hsame]
    exact ⟨none, .rest, rfl⟩
  -- of the acts, only firings, grants, ends and commands reach the scheduler
  cases a with
  | move m =>
    cases m with
    | fire other t => exact shift_modifyRunner rfl (fun _ _ => .fire) w
    | exit other t => exact shift_modifyRunner rfl (fun _ _ => .exit) w
    | grant other =>
      rcases roster_grant name other w with
        hsame | ⟨-, helsewhere⟩ | ⟨t, agent, r, r', -, hthere, hgrant, hfires, hgranted⟩
      · exact hrest hsame
      · exact hrest (helsewhere.trans (put_eq_self hnext))
      · refine ⟨some .grant, ?_, rfl⟩
        simp only [act, step, hgranted]
        exact .grant hthere hgrant hfires
    | resume id => exact shift_resume id w
    | beat id => exact hrest (roster_beat id w)
    | release index => exact hrest (roster_releaseAbandoned index w)
    | abandon id =>
      refine hrest ?_
      cases hflies : w.flights[id]? with
      | none => simp [act, step, abandon, hflies]
      | some f => exact (roster_abandon hflies).trans (put_eq_self (hdetached id rfl))
    | pass ms => exact hrest rfl
  | start other agent script =>
    refine hrest ?_
    rw [act]
    split
    case isTrue => rw [roster_takeOff, put_eq_self hnext]
    case isFalse => rfl
  | reschedule other change scripts =>
    by_cases heq : other = name
    · subst heq
      obtain ⟨command, rfl⟩ := hcommanded change scripts rfl
      exact shift_modifyRunner rfl (fun _ _ => .command) { w with scripts := w.scripts ++ scripts }
    · refine hrest ?_
      rw [act, roster_modifyNode other _ change (fun _ => by rfl), if_neg heq]
      rfl

/-- The invariant of a node in a run: its runner has gone through events, the cycles that hold a
permit fly, and the numbers of flights are not used twice. -/
structure Staffed (name : String) (start : Runner) (w : World) : Prop where
  events : ∃ events, (w.roster name).runner = some (start.after events)
  crewed : (w.roster name).Crewed
  unused : ∃ xs, w.outline.Tracked xs

/-- An act keeps flights and running cycles in step: each shift starts, ends or passes on one of
both. -/
theorem Staffed.act (h : w.Staffed name start) (hdetached : a.Detached name w)
    (hcommanded : Commanded name a) : (w.act a).Staffed name start := by
  obtain ⟨⟨events, hrunner⟩, hcrewed, xs, htracked⟩ := h
  have hfree : w.flights[w.nextFlight]? = none := (htracked.unused _ (Nat.le_refl _)).1
  obtain ⟨e, hshift, -⟩ := shift_act hfree hdetached hcommanded
  refine ⟨⟨events ++ e.toList, ?_⟩, ?_, _, tracked_act htracked a⟩
  · rw [hshift.runner hrunner, Runner.after_append]
  · exact hcrewed.shift (by simp [roster, hfree]) hshift

/-- What is kept by every act of a run holds throughout. -/
theorem Staffed.always (h : w.Staffed name start) (hdetached : w.Each (Act.Detached name) acts)
    (hcommands : ∀ a ∈ acts, Commanded name a) : w.Always (Staffed name start) acts := by
  induction acts generalizing w with
  | nil => exact h
  | cons a acts ih =>
    have hnext := h.act hdetached.1 (hcommands a List.mem_cons_self)
    exact ⟨h, ih hnext hdetached.2 fun a ha => hcommands a (List.mem_cons_of_mem _ ha)⟩

/-! ## Permits -/

/-- The cycles of a node that execute under a permit: their tasks and agents. -/
def executing (name : String) (w : World) : List (Nat × String) :=
  w.flights.toList.filterMap fun entry => entry.2.cycle? name

/-- On a node with these settings every permit is free or held by a cycle that executes, and under
`OverlapPolicy.skip` a schedule may fire exactly if none of its cycles waits or executes. -/
structure Conserved (name : String) (s : SchedulerSettings) (w : World) : Prop where
  permits : ∃ node, w.nodes[name]? = some node ∧
    (w.executing name).length + node.runner.available = max 1 s.maxConcurrency
  guards : s.overlap = .skip → ∀ (node : Node) (t : Nat) (task : Schedule.Task),
    w.nodes[name]? = some node → node.runner.tasks[t]? = some task →
      (task.busy = false ↔ ∀ x ∈ w.underway name, x.1 ≠ t)

/-- The scheduler on the roster is the one of the node. -/
theorem roster_runner_eq_some {r : Runner} :
    (w.roster name).runner = some r ↔ ∃ node, w.nodes[name]? = some node ∧ node.runner = r :=
  Option.map_eq_some_iff

/-- As many cycles execute as hold a permit. -/
theorem length_executing {r : Runner} (h : (w.roster name).Crewed)
    (hr : (w.roster name).runner = some r) : (w.executing name).length = r.running.length := by
  obtain ⟨flying, hflying, hcrew⟩ := h.crew
  have hkeys : (w.flights.toList.map Prod.fst).Nodup := by
    rw [Std.ExtTreeMap.map_fst_toList_eq_keys]
    exact Std.ExtTreeMap.nodup_keys
  -- the flights with a cycle are listed as they stand in the world, each under its own number
  have hlists : (w.roster name).Lists
      (w.flights.toList.filterMap fun entry => (entry.2.cycle? name).map (entry.1, ·)) := by
    refine ⟨?nodup, fun id x => ?mem⟩
    case nodup =>
      rw [List.Nodup, List.pairwise_filterMap]
      refine (List.pairwise_map.1 hkeys).imp fun hne x hx y hy heq => hne ?_
      obtain ⟨_, -, rfl⟩ := Option.map_eq_some_iff.1 hx
      obtain ⟨_, -, rfl⟩ := Option.map_eq_some_iff.1 hy
      exact (Prod.mk.inj heq).1
    case mem =>
      simp [List.mem_filterMap, Std.ExtTreeMap.mem_toList_iff_getElem?_eq_some, roster,
        Option.bind_eq_some_iff]
  have hexecuting : w.executing name = (w.flights.toList.filterMap fun entry =>
      (entry.2.cycle? name).map (entry.1, ·)).map (·.2) := by
    simp [executing, List.map_filterMap, Function.comp_def]
  calc (w.executing name).length
      = flying.length := by rw [hexecuting, List.length_map, (hlists.perm hflying).length_eq]
    _ = (flying.map (·.2.1)).length := (List.length_map _).symm
    _ = r.running.length := (hcrew r hr).length_eq

/-- The cycles of a task that are under way wait for a permit or hold one. -/
theorem exists_underway_iff {r : Runner} {t : Nat} {task : Schedule.Task}
    (h : (w.roster name).Crewed) (hr : (w.roster name).runner = some r)
    (htask : r.tasks[t]? = some task) :
    (∃ x ∈ w.underway name, x.1 = t) ↔ t ∈ r.waiting ++ r.running := by
  have hagent : r.agentOf? t = some task.agent := by simp [Runner.agentOf?, htask]
  rw [List.mem_append]
  constructor
  · rintro ⟨x, hx, rfl⟩
    rcases mem_underway.1 hx with ⟨r', hr', hwaits, -⟩ | ⟨id, hflies⟩
    · obtain rfl := Option.some.inj (hr.symm.trans hr')
      exact .inl hwaits
    · exact .inr (h.mem_running hr hflies)
  · rintro (hwaits | hruns)
    · exact ⟨(t, task.agent), mem_underway.2 (.inl ⟨r, hr, hwaits, hagent⟩), rfl⟩
    · obtain ⟨id, agent, hflies⟩ := h.exists_flies hr hruns
      exact ⟨(t, agent), mem_underway.2 (.inr ⟨id, hflies⟩), rfl⟩

/-- While flights and running cycles are in step, the permits of the settings are all accounted
for. -/
theorem Staffed.conserved {s : SchedulerSettings} (h : w.Staffed name start)
    (hstart : Runner.new? s = some start) : w.Conserved name s := by
  obtain ⟨⟨events, hrunner⟩, hcrewed, -⟩ := h
  obtain ⟨node, hnode, heq⟩ := roster_runner_eq_some.1 hrunner
  refine ⟨⟨node, hnode, ?permits⟩, fun hskip node' t task hnode' htask => ?guards⟩
  case permits =>
    rw [length_executing hcrewed hrunner, heq,
      Runner.length_running_add_available hstart events, Runner.permits, Nat.max_comm]
  case guards =>
    obtain rfl : node = node' := Option.some.inj (hnode.symm.trans hnode')
    rw [heq] at htask
    have hbusy : (start.after events).Busy t ↔ task.busy = true := by
      simp [Runner.Busy, htask]
    rw [← Bool.not_eq_true, ← hbusy, Runner.busy_iff hstart hskip events,
      ← exists_underway_iff hcrewed hrunner htask]
    simp only [not_exists, not_and, ne_eq]

end World

/-! ## New fleets -/

namespace Fleet

variable {plans : List NodePlan} {plan : NodePlan} {locks : Lock.Faulty} {name : String}
  {fleet : Fleet} {acts : List Act}

/-- Nodes are made under the names of their plans. -/
theorem map_fst_nodes? {nodes : List (String × Node)} (h : nodes? plans = some nodes) :
    nodes.map Prod.fst = plans.map (·.name) := by
  induction plans generalizing nodes with
  | nil =>
    obtain rfl : [] = nodes := Option.some.inj h
    rfl
  | cons plan rest ih =>
    unfold nodes? at h
    cases hnode : node? plan with
    | none => simp [hnode] at h
    | some made =>
      cases hrest : nodes? rest with
      | none => simp [hnode, hrest] at h
      | some others =>
        simp only [hnode, hrest, Option.some.injEq] at h
        subst h
        simp [ih hrest]

/-- The node of a plan is there. -/
theorem exists_runner_new (hnew : new? plans locks = some fleet)
    (hplan : plan ∈ plans) (hunique : ∀ other ∈ plans, other.name = plan.name → other = plan) :
    ∃ start, (fleet.world.roster plan.name).runner = some start ∧
      Runner.new? plan.settings = some start := by
  have hthere : plan.name ∈ fleet.world.nodes := by
    obtain ⟨nodes, hnodes, rfl⟩ := Option.map_eq_some_iff.1 hnew
    have hnames : plan.name ∈ nodes.map Prod.fst := by
      rw [map_fst_nodes? hnodes]
      exact List.mem_map_of_mem hplan
    rw [Std.ExtTreeMap.mem_ofList]
    exact List.contains_iff_mem.2 hnames
  have hrunner := World.roster_runner_eq_some.2
    ⟨_, Std.ExtTreeMap.getElem?_eq_some_getElem hthere, rfl⟩
  obtain ⟨other, hother, hname, hmade⟩ := runner_new hnew hrunner
  rw [hunique other hother hname] at hmade
  exact ⟨_, hrunner, hmade⟩

/-- Before its first flight a fleet is staffed. -/
theorem staffed_new (hnew : new? plans locks = some fleet) {start : Runner}
    (hstart : Runner.new? plan.settings = some start)
    (hrunner : (fleet.world.roster name).runner = some start) :
    fleet.world.Staffed name start := by
  have hcycles (id : Nat) : (fleet.world.roster name).cycles id = none := by
    simp [World.roster, flights_new hnew]
  refine ⟨⟨[], hrunner⟩, ⟨⟨[], ⟨List.nodup_nil, by simp [hcycles]⟩, fun r hr => ?_⟩,
    fun _ hflies => by simp [hcycles] at hflies⟩, _, tracked_new hnew⟩
  obtain rfl := Option.some.inj (hrunner.symm.trans hr)
  rw [Runner.running_new hstart]
  exact .nil

/-- On a node whose users make, replace, end and cancel schedules in any order, and whose cycles
wait for each other and end in whatever way, the cycles that execute and the permits that are free
make up all permits at every moment of a run.  Under `OverlapPolicy.skip` a schedule is kept from
firing exactly as long as a cycle of its own waits or executes. -/
theorem always_conserved (hnew : new? plans locks = some fleet)
    (hplan : plan ∈ plans) (hunique : ∀ other ∈ plans, other.name = plan.name → other = plan)
    (hcommands : ∀ change scripts, .reschedule plan.name change scripts ∈ acts →
      ∃ command : Runner.Command, change = command.apply)
    (hdetached : fleet.world.Each (Act.Detached plan.name) acts) :
    fleet.world.Always (World.Conserved plan.name plan.settings) acts := by
  obtain ⟨start, hrunner, hstart⟩ := exists_runner_new hnew hplan hunique
  have hcommanded : ∀ a ∈ acts, Roster.Commanded plan.name a := by
    rintro a ha change scripts rfl
    exact hcommands change scripts ha
  have halways := (staffed_new hnew hstart hrunner).always hdetached hcommanded
  exact halways.imp fun w hstaffed => hstaffed.conserved hstart

/-- A node with a single permit, for which it has been set to none. -/
def narrowPlan : NodePlan :=
  { name := "node", settings := { maxConcurrency := 0, overlap := .skip } }

/-- Two agents share the permit.  The first fails and its callback for failures panics, after its
schedule has been cancelled; then it is the turn of the second. -/
def sharing : List Act :=
  [.reschedule "node" (Runner.Command.schedule "a" 0 0).apply
      [{ runs := [{ reaction := .fails ["broken"] }], onFailed := [.panics none] }],
    .reschedule "node" (Runner.Command.schedule "b" 1 0).apply [{}],
    .move (.fire "node" 0), .move (.fire "node" 1), .move (.grant "node"),
    .reschedule "node" (Runner.Command.cancel 0).apply [], .move (.exit "node" 0)] ++
  List.replicate 5 (.move (.resume 0)) ++ [.move (.grant "node")]

/-- With a single permit, the second cycle executes after the first has given its permit back. -/
theorem always_conserved_sharing :
    ∃ fleet, new? [narrowPlan] { backing := .memory ∅ } = some fleet ∧
      fleet.world.Always (World.Conserved "node" narrowPlan.settings) sharing ∧
      (fleet.world.run (sharing.take 5)).executing "node" = [(0, "a")] ∧
      (fleet.world.run sharing).executing "node" = [(1, "b")] := by
  have hnew : new? [narrowPlan] { backing := .memory ∅ } = some _ := rfl
  refine ⟨_, hnew, ?_, by decide +kernel, by decide +kernel⟩
  refine always_conserved hnew (List.mem_singleton_self narrowPlan) ?unique ?commands
    (by decide +kernel)
  case unique =>
    intro other hother _
    exact List.mem_singleton.1 hother
  case commands =>
    intro change scripts h
    simp only [sharing, List.replicate, List.mem_append, List.mem_cons, Act.reschedule.injEq,
      reduceCtorEq, List.not_mem_nil, or_false, false_or] at h
    rcases h with ⟨-, rfl, -⟩ | ⟨-, rfl, -⟩ | ⟨-, rfl, -⟩ <;> exact ⟨_, rfl⟩

end Fleet

end Cluster

end EntityCache
