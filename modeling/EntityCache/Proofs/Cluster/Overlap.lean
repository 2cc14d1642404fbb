import EntityCache.Proofs.Cluster.Exclusion
import EntityCache.Proofs.Cluster.Roster

/-!
# Overlapping cycles

`Roster.Guarded` is the invariant of a node whose schedules do not fire while a cycle of their own
is under way: every schedule has at most one cycle under way.  An act keeps it as long as users only
make, end and cancel schedules (`Roster.Guarded.step`).

That no agent has two cycles is more, and does not follow: a cycle goes on when its schedule is
replaced, and the schedule that replaces it does not know of it.  This is the only way
(`Roster.Guarded.alone_step`), so that a run of a fleet is free of overlaps exactly if no cycle
starts while a cycle of an earlier schedule of the same agent is under way
(`Fleet.single_iff_clear`).
-/

namespace EntityCache

namespace Cluster

open Firing Function
open Schedule (Runner)

namespace Roster

/-- A cycle waits for a permit or flies: its task and its agent. -/
def Underway (c : Roster) (x : Nat × String) : Prop :=
  (∃ r, c.runner = some r ∧ x.1 ∈ r.waiting ∧ r.agentOf? x.1 = some x.2) ∨
    ∃ id, c.cycles id = some x

/-- No agent has two cycles. -/
def Alone (c : Roster) : Prop :=
  ∀ x y : Nat × String, c.Underway x → c.Underway y → x.2 = y.2 → x = y

/-- The invariant of a node under `OverlapPolicy.skip`: no task has two cycles. -/
structure Guarded (c : Roster) : Prop where
  runner : ∀ {r : Runner}, c.runner = some r → r.Guarded
  runs : ∀ {id t : Nat} {agent : String}, c.cycles id = some (t, agent) →
    ∃ r, c.runner = some r ∧ t ∈ r.running ∧ r.agentOf? t = some agent
  distinct : ∀ {i j t : Nat} {agent agent' : String}, c.cycles i = some (t, agent) →
    c.cycles j = some (t, agent') → i = j

/-- An act changes the schedules of a node by commands only. -/
def Commanded (name : String) (a : Act) : Prop :=
  ∀ change scripts, a = .reschedule name change scripts →
    ∃ command : Runner.Command, change = command.apply

variable {name : String} {now : Nat} {a : Act} {c c' : Roster} {x y : Nat × String}
  {r : Runner} {g : Runner → Runner}

/-! ## Steps -/

/-- The runner changes, and keeps the cycles that fly. -/
theorem Guarded.amend (h : c.Guarded) (hg : ∀ r, c.runner = some r → (g r).Guarded)
    (hruns : ∀ {r : Runner} {id t : Nat} {agent : String}, c.runner = some r →
      c.cycles id = some (t, agent) → t ∈ r.running → t ∈ (g r).running)
    (hagent : ∀ {r : Runner} {t : Nat} {agent : String}, c.runner = some r →
      r.agentOf? t = some agent → (g r).agentOf? t = some agent) :
    (c.amend g).Guarded where
  runner hr := by
    obtain ⟨r, hrunner, rfl⟩ := Option.map_eq_some_iff.1 hr
    exact hg r hrunner
  runs hcycle := by
    obtain ⟨r, hrunner, hmem, hfires⟩ := h.runs hcycle
    exact ⟨g r, by simp [Roster.amend, hrunner], hruns hrunner hcycle hmem,
      hagent hrunner hfires⟩
  distinct := h.distinct

/-- Which cycles fly after one has been put in. -/
theorem put_cycles_eq_some {id i : Nat} {cycle : Option (Nat × String)} :
    (c.put id cycle).cycles i = some x ↔
      (i = id ∧ cycle = some x) ∨ (i ≠ id ∧ c.cycles i = some x) := by
  by_cases heq : i = id
  · subst heq
    simp [put]
  · simp [put, heq]

/-- A cycle less leaves the guard as it is. -/
theorem Guarded.vacate (h : c.Guarded) (id : Nat) : (c.put id none).Guarded := by
  have hold {i : Nat} {x : Nat × String} (hcycle : (c.put id none).cycles i = some x) :
      c.cycles i = some x := by
    obtain ⟨-, hnone⟩ | ⟨-, hold⟩ := put_cycles_eq_some.1 hcycle
    · cases hnone
    · exact hold
  exact ⟨h.runner, fun hcycle => h.runs (hold hcycle),
    fun hi hj => h.distinct (hold hi) (hold hj)⟩

/-- A step of the scheduler that keeps its cycles and its guard keeps the guard over the flights. -/
theorem Guarded.keep (h : c.Guarded) (hkeeps : ∀ r, c.runner = some r → Runner.Keeps r (g r))
    (hg : ∀ r, c.runner = some r → (g r).Guarded) : (c.amend g).Guarded :=
  h.amend hg (fun hr _ hmem => by rwa [(hkeeps _ hr).running]) fun hr => (hkeeps _ hr).agent

/-- A cycle takes off whose task has none that flies. -/
theorem Guarded.takeOff (h : c.Guarded) {t : Nat} {agent : String} (hr : c.runner = some r)
    (hmem : t ∈ r.running) (hfires : r.agentOf? t = some agent)
    (hfree : ∀ i agent', c.cycles i ≠ some (t, agent')) (id : Nat) :
    (c.put id (some (t, agent))).Guarded where
  runner := h.runner
  runs hcycle := by
    rcases put_cycles_eq_some.1 hcycle with ⟨-, hnew⟩ | ⟨-, hold⟩
    · obtain ⟨rfl, rfl⟩ := Prod.mk.inj (Option.some.inj hnew)
      exact ⟨r, hr, hmem, hfires⟩
    · exact h.runs hold
  distinct hi hj := by
    -- two flights of one task: the new one has none beside it, the old ones were distinct
    rcases put_cycles_eq_some.1 hi with ⟨rfl, hnew⟩ | ⟨-, hold⟩ <;>
      rcases put_cycles_eq_some.1 hj with ⟨rfl, hnew'⟩ | ⟨-, hold'⟩
    · rfl
    · obtain ⟨rfl, -⟩ := Prod.mk.inj (Option.some.inj hnew)
      exact absurd hold' (hfree _ _)
    · obtain ⟨rfl, -⟩ := Prod.mk.inj (Option.some.inj hnew')
      exact absurd hold (hfree _ _)
    · exact h.distinct hold hold'

/-- A cycle that waits gets a permit: no cycle of its task flies. -/
theorem Guarded.grant {t : Nat} {agent : String} {r' : Runner} (h : c.Guarded)
    (hr : c.runner = some r) (hgrant : r.grant? = some (t, r'))
    (hfires : r'.agentOf? t = some agent) (id : Nat) :
    ((c.amend fun _ => r').put id (some (t, agent))).Guarded := by
  obtain ⟨rest, hwaiting, -, hr'⟩ := Runner.grant?_eq_some.1 hgrant
  have hrunning : r'.running = t :: r.running := by rw [hr']
  have hamend : (c.amend fun _ => r').Guarded := by
    refine h.amend (fun _ _ => (h.runner hr).grant hgrant) (fun hr₁ _ hmem => ?_) fun hr₁ hold => ?_
    · obtain rfl := Option.some.inj (hr.symm.trans hr₁)
      rw [hrunning]
      exact List.mem_cons_of_mem _ hmem
    · obtain rfl := Option.some.inj (hr.symm.trans hr₁)
      rw [hr']
      exact hold
  refine hamend.takeOff (by simp [Roster.amend, hr]) (by simp [hrunning]) hfires ?_ id
  -- a task that waits does not run, so none of the flights is of it
  intro i agent' hcycle
  obtain ⟨r₁, hr₁, hruns, -⟩ := h.runs hcycle
  obtain rfl := Option.some.inj (hr.symm.trans hr₁)
  obtain ⟨-, -, hdisjoint⟩ := List.nodup_append.1 (h.runner hr).nodup
  exact hdisjoint t (by simp [hwaiting]) t hruns rfl

/-- A cycle lands: it is the only one of its task. -/
theorem Guarded.land {id t : Nat} {agent : String} (h : c.Guarded)
    (hflies : c.cycles id = some (t, agent)) (failure : Option CallbackError) :
    ((c.amend fun r => r.finish t failure).put id none).Guarded := by
  show ((c.put id none).amend fun r => r.finish t failure).Guarded
  refine (h.vacate id).amend (fun r hr => (h.runner hr).finish t failure) ?_ fun _ hold => ?_
  · intro r i t' agent' _ hcycle hmem
    rcases put_cycles_eq_some.1 hcycle with ⟨-, hnone⟩ | ⟨hne, hold⟩
    · cases hnone
    have hother : t' ≠ t := by
      rintro rfl
      exact hne (h.distinct hold hflies)
    rw [Runner.finish]
    split
    · exact (List.mem_erase_of_ne hother).2 hmem
    · exact hmem
  · rw [Runner.agentOf?_finish]
    exact hold

/-- An act keeps the invariant. -/
theorem Guarded.step (h : c.Guarded) (hstep : Step name now a c c') (ha : Commanded name a) :
    c'.Guarded := by
  cases hstep with
  | rest => exact h
  | fire =>
    refine h.amend (fun r hr => (h.runner hr).fire _ now) (fun hr _ hmem => ?_) fun hr hold => ?_
    · rwa [Runner.running_fire (h.runner hr).skips]
    · rwa [Runner.agentOf?_fire (h.runner hr).skips]
  | exit =>
    exact h.keep (fun r _ => Runner.keeps_exitTask _ r) fun r hr => (h.runner hr).exitTask _
  | grant there granted fires => exact h.grant there granted fires _
  | land flies => exact h.land flies _
  | vacate => exact h.vacate _
  | reschedule =>
    obtain ⟨command, rfl⟩ := ha _ _ rfl
    exact h.keep (fun r _ => Runner.keeps_command command r) fun r hr => (h.runner hr).command _

/-! ## Cycles that are under way -/

/-- The task of a cycle is busy. -/
theorem Guarded.underway (h : c.Guarded) (hx : c.Underway x) :
    ∃ r, c.runner = some r ∧ x.1 ∈ r.waiting ++ r.running ∧ r.agentOf? x.1 = some x.2 := by
  rcases hx with ⟨r, hr, hwaits, hfires⟩ | ⟨id, hcycle⟩
  · exact ⟨r, hr, List.mem_append_left _ hwaits, hfires⟩
  · obtain ⟨r, hr, hruns, hfires⟩ := h.runs hcycle
    exact ⟨r, hr, List.mem_append_right _ hruns, hfires⟩

/-- A cycle is known by its task. -/
theorem Guarded.eq_of_task_eq (h : c.Guarded) (hx : c.Underway x) (hy : c.Underway y)
    (htask : x.1 = y.1) : x = y := by
  obtain ⟨r, hr, -, hfires⟩ := h.underway hx
  obtain ⟨r', hr', -, hfires'⟩ := h.underway hy
  obtain rfl := Option.some.inj (hr.symm.trans hr')
  rw [htask] at hfires
  exact Prod.ext htask (Option.some.inj (hfires.symm.trans hfires'))

/-- A cycle starts in an act if it is a firing of its task that starts one. -/
theorem started?_eq_some :
    c.started? name now a = some x ↔ a = .move (.fire name x.1) ∧
      ∃ r, c.runner = some r ∧ r.started? x.1 now = some x.2 := by
  constructor
  · intro hstarted
    unfold started? at hstarted
    split at hstarted
    case h_1 other t =>
      split at hstarted
      case isTrue heq =>
        obtain ⟨r, hr, hmap⟩ := Option.bind_eq_some_iff.1 hstarted
        obtain ⟨agent, hstarts, rfl⟩ := Option.map_eq_some_iff.1 hmap
        exact ⟨by rw [heq], r, hr, hstarts⟩
      case isFalse => cases hstarted
    case h_2 => cases hstarted
  · rintro ⟨rfl, r, hr, hstarts⟩
    simp [started?, hr, hstarts]

/-- No cycle is new where the runner keeps no more cycles waiting. -/
theorem Guarded.underway_of_amend (h : c.Guarded)
    (hwaiting : ∀ {r : Runner}, c.runner = some r → (g r).waiting ⊆ r.waiting)
    (hagent : ∀ {r : Runner} {t : Nat} {agent : String}, c.runner = some r →
      r.agentOf? t = some agent → (g r).agentOf? t = some agent)
    (hx : (c.amend g).Underway x) : c.Underway x := by
  obtain ⟨r', hr', hwaits, hfires⟩ | hcycle := hx
  · obtain ⟨r, hr, rfl⟩ := Option.map_eq_some_iff.1 hr'
    have hmem : x.1 ∈ r.waiting := hwaiting hr hwaits
    obtain ⟨task, htask, -⟩ := (h.runner hr).busy x.1 (List.mem_append_left _ hmem)
    have hold : r.agentOf? x.1 = some task.agent := by simp [Runner.agentOf?, htask]
    exact .inl ⟨r, hr, hmem, hold.trans ((hagent hr hold).symm.trans hfires)⟩
  · exact .inr hcycle

/-- What is under way after a cycle has been put in is that cycle or was under way before. -/
theorem underway_of_put {id : Nat} {cycle : Option (Nat × String)}
    (hx : (c.put id cycle).Underway x) : cycle = some x ∨ c.Underway x := by
  obtain hwaits | ⟨i, hcycle⟩ := hx
  · exact .inr (.inl hwaits)
  · rcases put_cycles_eq_some.1 hcycle with ⟨-, hnew⟩ | ⟨-, hold⟩
    · exact .inl hnew
    · exact .inr (.inr ⟨i, hold⟩)

/-- A step of the scheduler that keeps its cycles brings none under way. -/
theorem Guarded.underway_of_keeps (h : c.Guarded)
    (hkeeps : ∀ r, c.runner = some r → Runner.Keeps r (g r)) (hx : (c.amend g).Underway x) :
    c.Underway x := by
  refine h.underway_of_amend (fun {r} hr => ?_) (fun hr => (hkeeps _ hr).agent) hx
  rw [(hkeeps r hr).waiting]
  exact List.Subset.refl _

/-- A cycle starts, and those that are under way go on. -/
theorem Guarded.underway_fire_iff {t : Nat} {agent : String} (h : c.Guarded)
    (hr : c.runner = some r) (hstarts : r.started? t now = some agent) :
    (c.amend fun r => r.fire t now).Underway x ↔ x = (t, agent) ∨ c.Underway x := by
  have hskips := (h.runner hr).skips
  -- a firing that starts adds its cycle at the end of those that wait
  have hwaiting : (r.fire t now).waiting = r.waiting ++ [t] := by
    rw [Runner.fire_of_started hskips hstarts]
  have hrunner : (c.amend fun r => r.fire t now).runner = some (r.fire t now) := by
    simp [Roster.amend, hr]
  have hfires : r.agentOf? t = some agent := by
    obtain ⟨task, htask, -, rfl⟩ := Runner.started?_eq_some.1 hstarts
    simp [Runner.agentOf?, htask]
  constructor
  · rintro (⟨r', hr', hmem, hagent⟩ | hcycle)
    · obtain rfl := Option.some.inj (hrunner.symm.trans hr')
      rw [Runner.agentOf?_fire hskips] at hagent
      rcases List.mem_append.1 (hwaiting ▸ hmem) with hold | hnew
      · exact .inr (.inl ⟨r, hr, hold, hagent⟩)
      · obtain htask : x.1 = t := by simpa using hnew
        rw [htask] at hagent
        exact .inl (Prod.ext htask (Option.some.inj (hagent.symm.trans hfires)))
    · exact .inr (.inr hcycle)
  · rintro (rfl | ⟨r', hr', hmem, hagent⟩ | hcycle)
    · exact .inl ⟨_, hrunner, by simp [hwaiting], by rwa [Runner.agentOf?_fire hskips]⟩
    · obtain rfl := Option.some.inj (hr.symm.trans hr')
      exact .inl ⟨_, hrunner, by simp [hwaiting, hmem], by rwa [Runner.agentOf?_fire hskips]⟩
    · exact .inr hcycle

/-- A firing starts a cycle or leaves things as they are. -/
theorem Guarded.underway_of_fire {t : Nat} (h : c.Guarded)
    (hx : (c.amend fun r => r.fire t now).Underway x) :
    c.started? name now (.move (.fire name t)) = some x ∨ c.Underway x := by
  cases hr : c.runner with
  | none => exact .inr (h.underway_of_keeps (fun r hr' => by simp [hr] at hr') hx)
  | some r =>
    cases hstarts : r.started? t now with
    | none =>
      refine .inr (h.underway_of_keeps (fun r' hr' => ?_) hx)
      obtain rfl := Option.some.inj (hr.symm.trans hr')
      exact Runner.keeps_fire (h.runner hr).skips hstarts
    | some agent =>
      refine ((h.underway_fire_iff hr hstarts).1 hx).imp_left ?_
      rintro rfl
      exact started?_eq_some.2 ⟨rfl, r, hr, hstarts⟩

/-- The cycle that takes off has waited. -/
theorem Guarded.underway_of_grant {id t : Nat} {agent : String} {r' : Runner} (h : c.Guarded)
    (hr : c.runner = some r) (hgrant : r.grant? = some (t, r'))
    (hfires : r'.agentOf? t = some agent)
    (hx : ((c.amend fun _ => r').put id (some (t, agent))).Underway x) : c.Underway x := by
  obtain ⟨rest, hwaiting, -, rfl⟩ := Runner.grant?_eq_some.1 hgrant
  rcases underway_of_put hx with hnew | hx
  · obtain rfl := Option.some.inj hnew
    exact .inl ⟨r, hr, by simp [hwaiting], hfires⟩
  · refine h.underway_of_amend (fun hr₁ => ?_) (fun hr₁ hold => ?_) hx
    · obtain rfl := Option.some.inj (hr.symm.trans hr₁)
      rw [hwaiting]
      exact List.subset_cons_self _ _
    · obtain rfl := Option.some.inj (hr.symm.trans hr₁)
      exact hold

/-- Where a flight is gone, no cycle is new. -/
theorem underway_of_vacate {id : Nat} (hx : (c.put id none).Underway x) : c.Underway x :=
  (underway_of_put hx).resolve_left (by simp)

/-- A cycle that is under way after an act has been before, or has just been started. -/
theorem Guarded.underway_step (h : c.Guarded) (hstep : Step name now a c c')
    (ha : Commanded name a) (hx : c'.Underway x) :
    c.started? name now a = some x ∨ c.Underway x := by
  cases hstep with
  | rest => exact .inr hx
  | fire => exact h.underway_of_fire hx
  | exit => exact .inr (h.underway_of_keeps (fun r _ => Runner.keeps_exitTask _ r) hx)
  | grant there granted fires => exact .inr (h.underway_of_grant there granted fires hx)
  | land =>
    refine .inr (h.underway_of_amend (fun {r} _ => ?_) (fun _ hold => ?_) (underway_of_vacate hx))
    · rw [Runner.waiting_finish]
      exact List.Subset.refl _
    · rwa [Runner.agentOf?_finish]
  | vacate => exact .inr (underway_of_vacate hx)
  | reschedule =>
    obtain ⟨command, rfl⟩ := ha _ _ rfl
    exact .inr (h.underway_of_keeps (fun r _ => Runner.keeps_command command r) hx)

/-- What is under way when a cycle starts stays so, and the cycle is added. -/
theorem Guarded.underway_of_started (h : c.Guarded) (hstep : Step name now a c c')
    (hstarted : c.started? name now a = some x) (hy : y = x ∨ c.Underway y) : c'.Underway y := by
  obtain ⟨rfl, r, hr, hstarts⟩ := started?_eq_some.1 hstarted
  cases hstep with
  | rest idle => simp [hstarted] at idle
  | vacate idle => simp [hstarted] at idle
  | fire => exact (h.underway_fire_iff hr hstarts).2 hy

/-- A cycle that starts meets, of its own agent, only cycles of earlier schedules. -/
theorem Guarded.earlier (h : c.Guarded) (hstarted : c.started? name now a = some x)
    (hy : c.Underway y) (hagent : y.2 = x.2) : y.1 < x.1 := by
  obtain ⟨-, r, hr, hstarts⟩ := started?_eq_some.1 hstarted
  obtain ⟨r', hr', hmem, hfires⟩ := h.underway hy
  obtain rfl := Option.some.inj (hr.symm.trans hr')
  exact (h.runner hr).earlier_of_starts hstarts ((h.runner hr).busy _ hmem) (hagent ▸ hfires)

/-- On a node without overlaps an act leads to one exactly if it starts a cycle while one of an
earlier schedule of the same agent is under way. -/
theorem Guarded.alone_step (h : c.Guarded) (hstep : Step name now a c c') (ha : Commanded name a)
    (halone : c.Alone) :
    c'.Alone ↔ ∀ x, c.started? name now a = some x → ∀ y, c.Underway y → y.1 < x.1 → y.2 ≠ x.2 := by
  constructor
  · intro halone' x hstarted y hy hlt hagent
    have heq : y = x := halone' y x (h.underway_of_started hstep hstarted (.inr hy))
      (h.underway_of_started hstep hstarted (.inl rfl)) hagent
    exact Nat.ne_of_lt hlt (congrArg Prod.fst heq)
  · intro hclear x y hx hy hagent
    rcases h.underway_step hstep ha hx with hnew | hx <;>
      rcases h.underway_step hstep ha hy with hnew' | hy
    · exact Option.some.inj (hnew.symm.trans hnew')
    · exact absurd hagent.symm (hclear x hnew y hy (h.earlier hnew hy hagent.symm))
    · exact absurd hagent (hclear y hnew' x hx (h.earlier hnew' hx hagent))
    · exact halone x y hx hy hagent

end Roster

/-! ## Runs -/

namespace World

/-- The cycles of a node that wait for a permit or fly: their tasks and agents. -/
def underway (name : String) (w : World) : List (Nat × String) :=
  ((w.nodes[name]?).elim [] fun node =>
      node.runner.waiting.filterMap fun t => (node.runner.agentOf? t).map (t, ·)) ++
    w.flights.toList.filterMap fun entry => entry.2.cycle? name

/-- No schedule of a node has two cycles under way. -/
def SinglePerTask (name : String) (w : World) : Prop := ((w.underway name).map (·.1)).Nodup

/-- No agent has two cycles under way on a node. -/
def Single (name : String) (w : World) : Prop := ((w.underway name).map (·.2)).Nodup

instance (name : String) : DecidablePred (Single name) :=
  fun w => inferInstanceAs (Decidable ((w.underway name).map (·.2)).Nodup)

end World

/-- If an act starts a cycle on a node, no cycle of an earlier schedule of the same agent is under
way. -/
def Act.Clear (name : String) (a : Act) (w : World) : Prop :=
  ∀ x ∈ (w.roster name).started? name w.now a, ∀ y ∈ w.underway name, y.1 < x.1 → y.2 ≠ x.2

instance (name : String) (a : Act) (w : World) : Decidable (a.Clear name w) :=
  inferInstanceAs (Decidable (∀ x ∈ (w.roster name).started? name w.now a,
    ∀ y ∈ w.underway name, y.1 < x.1 → y.2 ≠ x.2))

namespace World

variable {name : String} {w : World} {acts : List Act}

/-- The waiting cycles of a list are those whose tasks wait. -/
theorem mem_waiting_underway {x : Nat × String} {r : Runner} :
    (x ∈ r.waiting.filterMap fun t => (r.agentOf? t).map (t, ·)) ↔
      x.1 ∈ r.waiting ∧ r.agentOf? x.1 = some x.2 := by
  simp only [List.mem_filterMap, Option.map_eq_some_iff]
  constructor
  · rintro ⟨t, hmem, agent, hagent, rfl⟩
    exact ⟨hmem, hagent⟩
  · rintro ⟨hmem, hagent⟩
    exact ⟨x.1, hmem, x.2, hagent, rfl⟩

/-- The flying cycles of a list are those on the roster. -/
theorem mem_flights_underway {x : Nat × String} :
    (x ∈ w.flights.toList.filterMap fun entry => entry.2.cycle? name) ↔
      ∃ id, (w.roster name).cycles id = some x := by
  simp only [List.mem_filterMap, Prod.exists, Std.ExtTreeMap.mem_toList_iff_getElem?_eq_some,
    roster, Option.bind_eq_some_iff]

/-- The list of the cycles under way holds those that wait or fly. -/
theorem mem_underway {x : Nat × String} : x ∈ w.underway name ↔ (w.roster name).Underway x := by
  rw [underway, List.mem_append, mem_flights_underway, Roster.Underway]
  refine or_congr_left ?_
  cases hnode : w.nodes[name]? with
  | none => simp [roster, hnode]
  | some node =>
    have hrunner : (w.roster name).runner = some node.runner := by simp [roster, hnode]
    simp only [hrunner, Option.elim_some, mem_waiting_underway, Option.some.injEq, exists_eq_left']

/-- Under the guard, no task has two cycles under way. -/
theorem nodup_underway (h : (w.roster name).Guarded) : (w.underway name).Nodup := by
  have hcycle {id : Nat} {f : Flight} {x : Nat × String} (hmem : (id, f) ∈ w.flights.toList)
      (hx : f.cycle? name = some x) : (w.roster name).cycles id = some x := by
    have hflies : w.flights[id]? = some f := Std.ExtTreeMap.mem_toList_iff_getElem?_eq_some.1 hmem
    simp [roster, hflies, hx]
  -- the flights have different tasks, hence different cycles
  have hflights : (w.flights.toList.filterMap fun entry => entry.2.cycle? name).Nodup := by
    rw [List.Nodup, List.pairwise_filterMap]
    refine Std.ExtTreeMap.distinct_keys_toList.imp_of_mem ?_
    rintro ⟨i, f⟩ ⟨j, g⟩ hf hg hne ⟨t, agent⟩ hx _ hy rfl
    exact hne (Std.LawfulEqCmp.compare_eq_iff_eq.2 (h.distinct (hcycle hf hx) (hcycle hg hy)))
  unfold underway
  cases hnode : w.nodes[name]? with
  | none => exact hflights
  | some node =>
    have hrunner : (w.roster name).runner = some node.runner := by simp [roster, hnode]
    obtain ⟨hwaiting, -, hdisjoint⟩ := List.nodup_append.1 (h.runner hrunner).nodup
    refine List.nodup_append.2 ⟨hwaiting.filterMap fun t t' x hx hx' => ?_, hflights, ?_⟩
    · obtain ⟨_, -, rfl⟩ := Option.map_eq_some_iff.1 hx
      obtain ⟨_, -, heq⟩ := Option.map_eq_some_iff.1 hx'
      exact (congrArg Prod.fst heq).symm
    · -- a cycle that waits does not fly
      rintro x hwaits _ hflies rfl
      obtain ⟨id, hflies⟩ := mem_flights_underway.1 hflies
      obtain ⟨r, hr, hruns, -⟩ := h.runs hflies
      obtain rfl := Option.some.inj (hrunner.symm.trans hr)
      exact hdisjoint x.1 (mem_waiting_underway.1 hwaits).1 x.1 hruns rfl

/-- Under the guard, each task has a single cycle under way. -/
theorem singlePerTask_of_guarded (h : (w.roster name).Guarded) : w.SinglePerTask name := by
  rw [SinglePerTask, List.nodup_map_iff_inj_on (nodup_underway h)]
  intro x hx y hy
  exact h.eq_of_task_eq (mem_underway.1 hx) (mem_underway.1 hy)

/-- Under the guard, an agent has a single cycle exactly if its tasks do not meet. -/
theorem single_iff (h : (w.roster name).Guarded) : w.Single name ↔ (w.roster name).Alone := by
  rw [Single, List.nodup_map_iff_inj_on (nodup_underway h)]
  simp only [mem_underway, Roster.Alone]
  constructor
  · intro hinj x y hx hy
    exact hinj x hx y hy
  · intro halone x hx y hy
    exact halone x y hx hy

/-- In no run does a schedule have two cycles under way. -/
theorem always_singlePerTask (h : (w.roster name).Guarded)
    (hcommands : ∀ a ∈ acts, Roster.Commanded name a) : w.Always (SinglePerTask name) acts := by
  induction acts generalizing w with
  | nil => exact singlePerTask_of_guarded h
  | cons a acts ih =>
    have hguarded := h.step (stepRoster_act name a w) (hcommands a List.mem_cons_self)
    exact ⟨singlePerTask_of_guarded h,
      ih hguarded fun a ha => hcommands a (List.mem_cons_of_mem _ ha)⟩

/-- A run is free of overlaps exactly if each cycle that starts is clear of those of earlier
schedules. -/
theorem always_single_iff (h : (w.roster name).Guarded) (hsingle : w.Single name)
    (hcommands : ∀ a ∈ acts, Roster.Commanded name a) :
    w.Always (Single name) acts ↔ w.Each (Act.Clear name) acts := by
  -- while a single cycle is under way, the next act keeps it so exactly if it is clear
  induction acts generalizing w with
  | nil => exact iff_of_true hsingle trivial
  | cons a acts ih =>
    have ha := hcommands a List.mem_cons_self
    have hstep := stepRoster_act name a w
    have hguarded := h.step hstep ha
    have hnext : (w.act a).Single name ↔ a.Clear name w := by
      rw [single_iff hguarded, h.alone_step hstep ha ((single_iff h).1 hsingle)]
      simp only [Act.Clear, mem_underway, Option.mem_def]
    have hrest (hsingle : (w.act a).Single name) :=
      ih hguarded hsingle fun a ha => hcommands a (List.mem_cons_of_mem _ ha)
    constructor
    · rintro ⟨-, halways⟩
      exact ⟨hnext.1 halways.head, (hrest halways.head).1 halways⟩
    · rintro ⟨hclear, heach⟩
      have hsingle' := hnext.2 hclear
      exact ⟨hsingle, (hrest hsingle').2 heach⟩

end World

/-! ## New fleets -/

namespace Fleet

variable {plans : List NodePlan} {locks : Lock.Faulty} {name : String} {fleet : Fleet}
  {acts : List Act}

/-- In a new fleet nothing is under way. -/
theorem flights_new (hnew : new? plans locks = some fleet) :
    fleet.world.flights = ∅ := by
  obtain ⟨nodes, -, rfl⟩ := Option.map_eq_some_iff.1 hnew
  rfl

/-- A runner of a new fleet has been made of one of the plans. -/
theorem runner_new {r : Runner} (hnew : new? plans locks = some fleet)
    (hr : (fleet.world.roster name).runner = some r) :
    ∃ plan ∈ plans, plan.name = name ∧ Runner.new? plan.settings = some r := by
  obtain ⟨node, hnode, rfl⟩ := Option.map_eq_some_iff.1 hr
  obtain ⟨plan, hplan, hname, hmade⟩ := exists_plan_new hnew hnode
  obtain ⟨runner, hrunner, rfl⟩ := Option.map_eq_some_iff.1 hmade
  exact ⟨plan, hplan, hname, hrunner⟩

/-- A new fleet has no cycles for the guard to see. -/
theorem guarded_roster_new (hnew : new? plans locks = some fleet)
    (hskip : ∀ plan ∈ plans, plan.name = name → plan.settings.overlap = .skip) :
    (fleet.world.roster name).Guarded := by
  have hcycles (id : Nat) : (fleet.world.roster name).cycles id = none := by
    simp [World.roster, flights_new hnew]
  refine ⟨fun {r} hr => ?_, fun hcycle => ?_, fun hcycle => ?_⟩
  · obtain ⟨plan, hplan, hname, hmade⟩ := runner_new hnew hr
    exact Runner.guarded_new hmade (hskip plan hplan hname)
  · simp [hcycles] at hcycle
  · simp [hcycles] at hcycle

/-- In a new fleet no cycle is under way. -/
theorem underway_new (hnew : new? plans locks = some fleet) :
    fleet.world.underway name = [] := by
  refine List.eq_nil_iff_forall_not_mem.2 fun x hx => ?_
  obtain ⟨r, hr, hwaits, -⟩ | ⟨id, hflies⟩ := World.mem_underway.1 hx
  · obtain ⟨plan, -, -, hmade⟩ := runner_new hnew hr
    simp [Runner.waiting_new hmade] at hwaits
  · simp [World.roster, flights_new hnew] at hflies

/-- On a node under `OverlapPolicy.skip` whose users make, replace, end and cancel schedules in any
order, no schedule has two cycles under way at any moment of a run.  No agent has two, either, if
and only if no cycle starts while one of an earlier schedule of the same agent is under way. -/
theorem single_iff_clear (hnew : new? plans locks = some fleet)
    (hskip : ∀ plan ∈ plans, plan.name = name → plan.settings.overlap = .skip)
    (hcommands : ∀ change scripts, .reschedule name change scripts ∈ acts →
      ∃ command : Runner.Command, change = command.apply) :
    fleet.world.Always (World.SinglePerTask name) acts ∧
      (fleet.world.Always (World.Single name) acts ↔
        fleet.world.Each (Act.Clear name) acts) := by
  have hguarded := guarded_roster_new hnew hskip
  have hsingle : fleet.world.Single name := by simp [World.Single, underway_new hnew]
  have hcommanded : ∀ a ∈ acts, Roster.Commanded name a := by
    rintro a ha change scripts rfl
    exact hcommands change scripts ha
  exact ⟨World.always_singlePerTask hguarded hcommanded,
    World.always_single_iff hguarded hsingle hcommanded⟩

/-- A node under `OverlapPolicy.skip`. -/
def skippingNode : List NodePlan :=
  [{ name := "node", settings := { maxConcurrency := 2, overlap := .skip } }]

/-- An agent gets a schedule, and the first cycle of that begins to execute for a minute. -/
def beginCycle (n now : Nat) : List Act :=
  [.reschedule "node" (Runner.Command.schedule "agent" n now).apply [{ runs := [{ sleep := 60000 }] }],
    .move (.fire "node" n), .move (.grant "node"), .move (.resume n), .move (.resume n)]

/-- What a cycle can do to its own scheduler at its start is a command. -/
theorem command_of_mem_beginCycle {n now : Nat} {change : Runner → Runner} {scripts : List Script}
    (h : .reschedule "node" change scripts ∈ beginCycle n now) :
    ∃ command : Runner.Command, change = command.apply := by
  simp only [beginCycle, List.mem_cons, Act.reschedule.injEq, reduceCtorEq, List.not_mem_nil,
    or_false, true_and] at h
  exact ⟨_, h.1⟩

/-- The agent is scheduled again when the cycle of its first schedule has landed. -/
def renewed : List Act :=
  beginCycle 0 0 ++
    .move (.pass 60000) :: .move (.resume 0) :: .move (.resume 0) :: .move (.resume 0) ::
      beginCycle 1 60000

/-- An agent that is scheduled again when none of its cycles is under way has one cycle at a
time. -/
theorem single_iff_clear_renewed :
    ∃ fleet, new? skippingNode { backing := .memory ∅ } = some fleet ∧
      fleet.world.Each (Act.Clear "node") renewed ∧
      fleet.world.Always (World.Single "node") renewed := by
  have hnew : new? skippingNode { backing := .memory ∅ } = some _ := rfl
  refine ⟨_, hnew, ?clear, (single_iff_clear hnew (by decide) ?commands).2.2 ?clear⟩
  case clear => decide +kernel
  case commands =>
    intro change scripts h
    simp only [renewed, List.mem_append, List.mem_cons, reduceCtorEq, false_or] at h
    exact h.elim command_of_mem_beginCycle command_of_mem_beginCycle

/-- The agent is scheduled again while the cycle of its first schedule executes. -/
def replaced : List Act := beginCycle 0 0 ++ .move (.pass 10) :: beginCycle 1 10

/-- Under `OverlapPolicy.skip`, and by commands only, an agent comes to execute twice at once. -/
theorem not_single_replaced :
    ∃ fleet, new? skippingNode { backing := .memory ∅ } = some fleet ∧
      (∀ change scripts, .reschedule "node" change scripts ∈ replaced →
        ∃ command : Runner.Command, change = command.apply) ∧
      ((fleet.world.run replaced).flights.toList.map fun entry =>
        (entry.2.agent, entry.2.execution.isSome)) = [("agent", true), ("agent", true)] ∧
      ¬fleet.world.Always (World.Single "node") replaced := by
  have hnew : new? skippingNode { backing := .memory ∅ } = some _ := rfl
  refine ⟨_, hnew, fun change scripts h => ?_, by decide +kernel, by decide +kernel⟩
  simp only [replaced, List.mem_append, List.mem_cons, reduceCtorEq, false_or] at h
  exact h.elim command_of_mem_beginCycle command_of_mem_beginCycle

end Fleet

end Cluster

end EntityCache
