import EntityCache.Proofs.Cluster.Steps
import EntityCache.Proofs.Schedule.Guard

/-!
# The cycles of a node

`World.roster` keeps of a world what the cycles of one node depend on: the runner of the node, and
which flights are cycles that a task of this runner has fired.  `Roster.Step` says once what an act
can do to that, and `World.step_roster` that acts can do nothing else.
-/

namespace EntityCache

namespace Cluster

open Firing Function

/-- The cycles of a node. -/
structure Roster where
  runner : Option Schedule.Runner
  /-- Of each flight that a task of the runner has fired, the task and the agent. -/
  cycles : Nat → Option (Nat × String)

/-- The task of a node that has fired a flight, with the agent. -/
def Flight.cycle? (name : String) (f : Flight) : Option (Nat × String) :=
  if f.node = some name then f.task.map (·, f.agent) else none

/-- The cycle of a flight: it is of the node, and of a task. -/
theorem Flight.cycle?_eq_some {name : String} {f : Flight} {t : Nat} {agent : String} :
    f.cycle? name = some (t, agent) ↔ f.node = some name ∧ f.task = some t ∧ f.agent = agent := by
  simp only [Flight.cycle?, Option.ite_none_right_eq_some, Option.map_eq_some_iff, Prod.mk.injEq]
  constructor
  · rintro ⟨hnode, _, htask, rfl, hagent⟩
    exact ⟨hnode, htask, hagent⟩
  · rintro ⟨hnode, htask, hagent⟩
    exact ⟨hnode, t, htask, rfl, hagent⟩

namespace Roster

/-- A flight takes off or is gone. -/
def put (id : Nat) (cycle : Option (Nat × String)) (c : Roster) : Roster :=
  { c with cycles := update c.cycles id cycle }

/-- Changes the runner. -/
def amend (g : Schedule.Runner → Schedule.Runner) (c : Roster) : Roster :=
  { c with runner := c.runner.map g }

/-- The cycle that an act starts on the node of a name under `OverlapPolicy.skip`, if it starts one:
its task and its agent. -/
def started? (name : String) (now : Nat) (c : Roster) : Act → Option (Nat × String)
  | .move (.fire other t) =>
    if other = name then c.runner.bind fun r => (r.started? t now).map (t, ·) else none
  | _ => none

/-- What an act can do to the cycles of a node. -/
inductive Step (name : String) (now : Nat) : Act → Roster → Roster → Prop where
  | rest {a : Act} {c : Roster} (idle : c.started? name now a = none) : Step name now a c c
  | fire {c : Roster} {t : Nat} :
      Step name now (.move (.fire name t)) c (c.amend fun r => r.fire t now)
  | exit {c : Roster} {t : Nat} :
      Step name now (.move (.exit name t)) c (c.amend fun r => r.exitTask t)
  | grant {c : Roster} {id t : Nat} {agent : String} {r r' : Schedule.Runner}
      (there : c.runner = some r) (granted : r.grant? = some (t, r'))
      (fires : r'.agentOf? t = some agent) :
      Step name now (.move (.grant name)) c ((c.amend fun _ => r').put id (some (t, agent)))
  | land {c : Roster} {id t : Nat} {agent : String} {failure : Option CallbackError}
      (flies : c.cycles id = some (t, agent)) :
      Step name now (.move (.resume id)) c ((c.amend fun r => r.finish t failure).put id none)
  /-- A flight that is no cycle of the node takes off or lands, or a flight is abandoned. -/
  | vacate {a : Act} {c : Roster} {id : Nat} (idle : c.started? name now a = none) :
      Step name now a c (c.put id none)
  | reschedule {c : Roster} {change : Schedule.Runner → Schedule.Runner} {scripts : List Script} :
      Step name now (.reschedule name change scripts) c (c.amend change)

end Roster

namespace World

/-- A world without what the cycles of a node do not depend on. -/
def roster (name : String) (w : World) : Roster where
  runner := (w.nodes[name]?).map (·.runner)
  cycles id := (w.flights[id]?).bind (Flight.cycle? name)

variable {w w' : World} {name : String} {id : Nat} {f : Flight}

/-! ## Changes of a world -/

/-- A flight that is put in place shows its cycle on the roster. -/
theorem roster_insert (id : Nat) (f : Flight) (w : World) :
    ({ w with flights := w.flights.insert id f } : World).roster name =
      (w.roster name).put id (f.cycle? name) := by
  have hcycles := congrArg (fun flights => (fun o => Option.bind o (Flight.cycle? name)) ∘ flights)
    (getElem?_insert_eq_update w.flights id f)
  simp only [comp_update] at hcycles
  exact congrArg (Roster.mk (w.roster name).runner) hcycles

/-- A flight that is taken away leaves the roster. -/
theorem roster_erase (id : Nat) (w : World) :
    ({ w with flights := w.flights.erase id } : World).roster name =
      (w.roster name).put id none := by
  have hcycles := congrArg (fun flights => (fun o => Option.bind o (Flight.cycle? name)) ∘ flights)
    (getElem?_erase_eq_update w.flights id)
  simp only [comp_update] at hcycles
  exact congrArg (Roster.mk (w.roster name).runner) hcycles

/-- Where a flight flies, and what has fired it, does not change. -/
theorem roster_modifyFlight (id : Nat) (g : Flight → Flight)
    (h : ∀ f, (g f).cycle? name = f.cycle? name) (w : World) :
    (w.modifyFlight id g).roster name = w.roster name := by
  unfold modifyFlight
  cases hflies : w.flights[id]? with
  | none => rfl
  | some f =>
    have hcycle : (w.roster name).cycles id = f.cycle? name := by simp [roster, hflies]
    show ({ w with flights := w.flights.insert id (g f) } : World).roster name = _
    rw [roster_insert, h, ← hcycle, Roster.put, update_eq_self]

/-- What changes the scheduler of a node shows on its roster alone. -/
theorem roster_modifyNode (other : String) (g : Node → Node)
    (change : Schedule.Runner → Schedule.Runner) (h : ∀ node, (g node).runner = change node.runner)
    (w : World) :
    (w.modifyNode other g).roster name =
      if other = name then (w.roster name).amend change else w.roster name := by
  by_cases heq : other = name
  · subst heq
    cases hnode : w.nodes[other]? with
    | none => simp [modifyNode, roster, Roster.amend, hnode]
    | some node => simp [modifyNode, roster, Roster.amend, hnode, h]
  · rw [if_neg heq]
    cases hnode : w.nodes[other]? with
    | none => simp [modifyNode, hnode]
    | some node => simp [modifyNode, roster, hnode, Std.ExtTreeMap.getElem?_insert, heq]

/-- What is not the runner of a node is not seen. -/
theorem roster_modifyNode_self (other : String) (g : Node → Node)
    (h : ∀ node, (g node).runner = node.runner) (w : World) :
    (w.modifyNode other g).roster name = w.roster name := by
  rw [roster_modifyNode other g id h]
  simp [Roster.amend]

/-- Marks do not show on the roster. -/
theorem roster_setActive (id : Nat) (f : Flight) (active : Bool) (w : World) :
    (w.setActive id f active).roster name = w.roster name := by
  have hentered : (w.modifyFlight id fun f => { f with entered := active }).roster name =
      w.roster name := roster_modifyFlight id _ (fun _ => by rfl) w
  unfold setActive
  cases f.node with
  | none => exact hentered
  | some other => exact (roster_modifyNode_self other _ (fun _ => by rfl) _).trans hentered

/-! ## Answers -/

/-- No answer of the environment of a cycle shows on the roster. -/
theorem roster_serveAgent {r : AgentRequest} {reply : r.Reply}
    (hserve : serveAgent id f r w = some (reply, w')) : w'.roster name = w.roster name := by
  cases r with
  | started | completed | failed =>
    obtain rfl : _ = w' := (Prod.mk.inj (Option.some.inj hserve)).2
    rfl
  | execute =>
    obtain rfl : _ = w' := (Prod.mk.inj (Option.some.inj hserve)).2
    exact (roster_modifyFlight id _ (fun _ => by rfl) _).trans rfl
  | finish =>
    unfold serveAgent at hserve
    cases hexecution : f.execution with
    | none =>
      obtain ⟨-, rfl⟩ : _ ∧ w = w' := by simpa [hexecution] using hserve
      rfl
    | some execution =>
      simp only [hexecution, Option.ite_none_right_eq_some, Option.some.injEq, Prod.mk.injEq]
        at hserve
      obtain ⟨-, -, rfl⟩ := hserve
      exact (roster_modifyFlight id _ (fun _ => by rfl) _).trans rfl

/-- No answer to the identity shows on the roster. -/
theorem roster_serveResolver {q : Identity.Request} {reply : q.Reply}
    (hserve : serveResolver id f q w = some (reply, w')) : w'.roster name = w.roster name := by
  unfold serveResolver at hserve
  cases hname : f.node with
  | none => simp [hname] at hserve
  | some other =>
    cases hnode : w.nodes[other]? with
    | none => simp [hname, hnode] at hserve
    | some node =>
      cases hresolver : node.resolver with
      | none => simp [hname, hnode, hresolver] at hserve
      | some resolver =>
        simp only [hname, hnode, hresolver, Option.map_eq_some_iff, Prod.exists,
          Prod.mk.injEq] at hserve
        obtain ⟨-, resolver', -, -, rfl⟩ := hserve
        have hroster : (w.modifyNode other fun node =>
            { node with resolver := some resolver' }).roster name = w.roster name :=
          roster_modifyNode_self other _ (fun _ => by rfl) w
        simpa only [modifyNode, hnode] using hroster

/-- The answer of a request neither changes a runner nor lets a flight take off or land. -/
theorem roster_serve {r : Request} {reply : r.Reply} (hserve : serve id f r w = some (reply, w')) :
    w'.roster name = w.roster name := by
  -- requests change flights, locks, marks and identities, but no scheduler
  cases r with
  | resolve q => exact roster_serveResolver hserve
  | enter =>
    rw [serve] at hserve
    split at hserve <;> obtain ⟨-, rfl⟩ := Prod.mk.inj (Option.some.inj hserve)
    · rfl
    · exact roster_setActive id f true w
  | leave =>
    obtain rfl : _ = w' := (Prod.mk.inj (Option.some.inj hserve)).2
    exact roster_setActive id f false w
  | acquire owner =>
    simp only [serve] at hserve
    split at hserve <;> obtain ⟨-, rfl⟩ := Prod.mk.inj (Option.some.inj hserve)
    · exact (roster_modifyFlight id _ (fun _ => by rfl) _).trans rfl
    · rfl
  | release owner =>
    obtain rfl : _ = w' := (Prod.mk.inj (Option.some.inj hserve)).2
    exact roster_modifyFlight id _ (fun _ => by rfl) w
  | call r => exact roster_serveAgent hserve
  | guarded r =>
    rw [serve] at hserve
    split at hserve
    case isTrue =>
      obtain ⟨-, rfl⟩ := Prod.mk.inj (Option.some.inj hserve)
      exact roster_modifyFlight id _ (fun _ => by rfl) w
    case isFalse =>
      simp only [Option.map_eq_some_iff, Prod.exists, Prod.mk.injEq] at hserve
      obtain ⟨_, w₁, hagent, -, rfl⟩ := hserve
      exact roster_serveAgent hagent

/-! ## Moves -/

/-- Nothing happens to the cycles of the node. -/
theorem stepRoster_rest {a : Act} {now : Nat} (h : w'.roster name = w.roster name)
    (hidle : (w.roster name).started? name now a = none) :
    Roster.Step name now a (w.roster name) (w'.roster name) := by
  rw [h]
  exact .rest hidle

/-- The runner of a node changes, which may be this one. -/
theorem stepRoster_modifyRunner {a : Act} {now : Nat} (other : String)
    (change : Schedule.Runner → Schedule.Runner)
    (h : ∀ c, other = name → Roster.Step name now a c (c.amend change))
    (hidle : ∀ c : Roster, other ≠ name → c.started? name now a = none) (w : World) :
    Roster.Step name now a (w.roster name)
      ((w.modifyNode other fun node =>
        { node with runner := change node.runner }).roster name) := by
  rw [roster_modifyNode other _ change (fun _ => by rfl)]
  split
  case isTrue heq => exact h _ heq
  case isFalse hne => exact .rest (hidle _ hne)

/-- A launch puts the cycle of the new flight on the roster. -/
theorem roster_launch (f : Flight) (w : World) :
    (w.launch f).2.roster name = (w.roster name).put w.nextFlight (f.cycle? name) :=
  roster_insert w.nextFlight f w

/-- A flight that no task of a runner has fired takes off. -/
theorem roster_takeOff (place : Option String) (agent : String) (script : Script) (w : World) :
    (Fleet.takeOff place agent script w).2.roster name =
      (w.roster name).put w.nextFlight none := by
  simp only [Fleet.takeOff, roster_launch, Flight.cycle?, Option.map_none, ite_self]
  rfl

/-- A flight that is started by hand is of no task, so nothing changes on the roster. -/
theorem stepRoster_takeOff (other agent : String) (script : Script) (place : Option String)
    (w : World) :
    Roster.Step name w.now (.start other agent script) (w.roster name)
      ((Fleet.takeOff place agent script w).2.roster name) := by
  rw [roster_takeOff]
  exact .vacate rfl

/-- A cycle that waits on the node takes off, or one that waits on another node, or none. -/
theorem roster_grant (name other : String) (w : World) :
    (w.grant other).roster name = w.roster name ∨
      (other ≠ name ∧
        (w.grant other).roster name = (w.roster name).put w.nextFlight none) ∨
      ∃ (t : Nat) (agent : String) (r r' : Schedule.Runner), other = name ∧
        (w.roster name).runner = some r ∧ r.grant? = some (t, r') ∧
        r'.agentOf? t = some agent ∧
        (w.grant other).roster name =
          ((w.roster name).amend fun _ => r').put w.nextFlight (some (t, agent)) := by
  cases hnode : w.nodes[other]? with
  | none => simp [grant, hnode]
  | some node =>
    cases hgrant : node.runner.grant? with
    | none => simp [grant, hnode, hgrant]
    | some granted =>
      obtain ⟨t, runner⟩ := granted
      cases htask : runner.tasks[t]? with
      | none => simp [grant, hnode, hgrant, htask]
      | some task =>
        -- the runner is changed first, and then the flight takes off
        have hmodify : w.modifyNode other (fun node => { node with runner }) =
            { w with nodes := w.nodes.insert other { node with runner } } := by
          simp only [modifyNode, hnode]
        have hrunner : (w.modifyNode other fun node => { node with runner }).roster name = _ :=
          roster_modifyNode other _ (fun _ => runner) (fun _ => by rfl) w
        rw [hmodify] at hrunner
        refine .inr ?_
        simp only [grant, hnode, hgrant, htask, roster_launch, hrunner]
        by_cases heq : other = name
        · subst heq
          have hthere : (w.roster other).runner = some node.runner := by simp [roster, hnode]
          have hfires : runner.agentOf? t = some task.agent := by
            simp [Schedule.Runner.agentOf?, htask]
          exact .inr ⟨t, task.agent, node.runner, runner, rfl, hthere, hgrant, hfires,
            by simp [Flight.cycle?]⟩
        · exact .inl ⟨heq, by simp [Flight.cycle?, heq]⟩

/-- On the roster, a grant turns a waiting cycle into a flying one. -/
theorem stepRoster_grant (other : String) (w : World) :
    Roster.Step name w.now (.move (.grant other)) (w.roster name) ((w.grant other).roster name) := by
  rcases roster_grant name other w with
    hrest | ⟨-, helsewhere⟩ | ⟨t, agent, r, r', rfl, hthere, hgrant, hfires, hgranted⟩
  · exact stepRoster_rest hrest rfl
  · rw [helsewhere]
    exact .vacate rfl
  · rw [hgranted]
    exact .grant hthere hgrant hfires

/-- A cycle of the node lands. -/
theorem roster_land {t : Nat} {agent : String} (h : f.cycle? name = some (t, agent)) (ended : Ended)
    (w : World) :
    (w.land id f ended).roster name =
      ((w.roster name).amend fun r => r.finish t (failureOf ended)).put id none := by
  obtain ⟨hnode, htask, -⟩ := Flight.cycle?_eq_some.1 h
  simp only [land, hnode, htask]
  rw [roster_modifyNode name _ (fun r => r.finish t (failureOf ended)) (fun _ => by rfl),
    if_pos rfl, roster_erase]
  rfl

/-- A flight lands that is no cycle of the node. -/
theorem roster_land_of_ne (h : f.cycle? name = none) (ended : Ended) (w : World) :
    (w.land id f ended).roster name = (w.roster name).put id none := by
  rw [← roster_erase]
  unfold land
  split
  case h_1 other t hnode htask =>
    have hne : other ≠ name := by
      rintro rfl
      simp [Flight.cycle?, hnode, htask] at h
    rw [roster_modifyNode other _ (fun r => r.finish t (failureOf ended)) (fun _ => by rfl),
      if_neg hne]
  case h_2 => rfl

/-- On the roster, a flight that lands ends its cycle. -/
theorem stepRoster_land (h : w.flights[id]? = some f) (ended : Ended) :
    Roster.Step name w.now (.move (.resume id)) (w.roster name)
      ((w.land id f ended).roster name) := by
  cases hcycle : f.cycle? name with
  | none =>
    rw [roster_land_of_ne hcycle]
    exact .vacate rfl
  | some x =>
    have hflies : (w.roster name).cycles id = some x := by simp [roster, h, hcycle]
    rw [roster_land hcycle]
    exact .land hflies

/-- On the roster, a flight that goes on changes nothing until it lands. -/
theorem stepRoster_resume (id : Nat) (w : World) :
    Roster.Step name w.now (.move (.resume id)) (w.roster name) ((w.resume id).roster name) := by
  unfold resume
  cases hflies : w.flights[id]? with
  | none => exact .rest rfl
  | some f =>
    cases hprogram : f.program with
    | done ended =>
      simp only [hprogram]
      exact stepRoster_land hflies ended
    | ask r next =>
      cases hserve : serve id f r w with
      | none => simp only [hprogram, hserve]; exact .rest rfl
      | some answer =>
        simp only [hprogram, hserve]
        refine stepRoster_rest ?_ rfl
        exact (roster_modifyFlight id _ (fun _ => by rfl) answer.2).trans (roster_serve hserve)

/-- Heartbeats do not show on the roster. -/
theorem roster_beat (id : Nat) (w : World) : (w.beat id).roster name = w.roster name := by
  unfold beat
  cases w.flights[id]? with
  | none => rfl
  | some f =>
    cases hholds : f.lock with
    | none => simp only [hholds]
    | some held =>
      cases hbeats : held.nextBeat with
      | none => simp only [hholds, hbeats]
      | some due =>
        simp only [hholds, hbeats]
        split
        · exact (roster_modifyFlight id _ (fun _ => by rfl) _).trans rfl
        · rfl

/-- Releases do not show on the roster. -/
theorem roster_releaseAbandoned (index : Nat) (w : World) :
    (w.releaseAbandoned index).roster name = w.roster name := by
  unfold releaseAbandoned
  cases w.releases[index]? <;> rfl

theorem roster_unmark (id : Nat) (f : Flight) (w : World) :
    (unmark id f w).roster name = w.roster name := by
  unfold unmark
  split
  · exact roster_setActive id f false w
  · rfl

theorem roster_leaveLock (f : Flight) (w : World) :
    (leaveLock f w).roster name = w.roster name := by
  unfold leaveLock
  cases f.lock <;> rfl

theorem roster_giveUp (id : Nat) (f : Flight) (w : World) :
    (giveUp id f w).roster name = w.roster name := by
  unfold giveUp
  cases f.node with
  | none => rfl
  | some other => exact roster_modifyNode_self other _ (fun _ => by rfl) w

/-- A flight that is abandoned leaves the roster, and its cycle is not counted as finished. -/
theorem roster_abandon (h : w.flights[id]? = some f) :
    (w.abandon id).roster name = (w.roster name).put id none := by
  rw [abandon_eq h, roster_erase, roster_giveUp, roster_leaveLock, roster_unmark]

/-- On the roster, an abandoned flight is a cycle that vanishes. -/
theorem stepRoster_abandon (id : Nat) (w : World) :
    Roster.Step name w.now (.move (.abandon id)) (w.roster name) ((w.abandon id).roster name) := by
  cases hflies : w.flights[id]? with
  | none =>
    rw [abandon, hflies]
    exact .rest rfl
  | some f =>
    rw [roster_abandon hflies]
    exact .vacate rfl

/-- What an act does to the cycles of a node is a step. -/
theorem stepRoster_act (name : String) (a : Act) (w : World) :
    Roster.Step name w.now a (w.roster name) ((w.act a).roster name) := by
  -- each act is looked at from the one node: it is the node's own, or shows nothing there
  cases a with
  | move m =>
    cases m with
    | fire other t =>
      exact stepRoster_modifyRunner other _ (fun c heq => heq ▸ .fire)
        (fun c hne => by simp [Roster.started?, hne]) w
    | exit other t =>
      exact stepRoster_modifyRunner other _ (fun c heq => heq ▸ .exit) (fun _ _ => rfl) w
    | grant other => exact stepRoster_grant other w
    | resume id => exact stepRoster_resume id w
    | beat id => exact stepRoster_rest (roster_beat id w) rfl
    | release index => exact stepRoster_rest (roster_releaseAbandoned index w) rfl
    | abandon id => exact stepRoster_abandon id w
    | pass ms => exact .rest rfl
  | start other agent script =>
    rw [act]
    split
    case isTrue => exact stepRoster_takeOff other agent script (some other) w
    case isFalse => exact .rest rfl
  | reschedule other change scripts =>
    exact stepRoster_modifyRunner other change (fun c heq => heq ▸ .reschedule) (fun _ _ => rfl)
      { w with scripts := w.scripts ++ scripts }

end World

end Cluster

end EntityCache
