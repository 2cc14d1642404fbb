import EntityCache.Proofs.Cluster.Leases

/-!
# Mutual exclusion in a fleet

`Outline.Exclusive` is the invariant of a fleet whose nodes all share their agents: flights keep to
the protocol, marks are right, and locks of flights are recorded.  A new fleet has it
(`Fleet.exclusive_new`), and an act keeps it (`World.exclusive_act`) as long as the leases of
flights are in force and no abandoned lock is released that a flight holds again.

Without abandoned flights there is nothing of the latter kind, so that an agent is executed by at
most one flight of the whole fleet at any moment (`Fleet.executesOnce`).  It takes both that a node
never has an identity that was another one's before, and that leases stay in force until they have
been extended, not only until that has been tried (`Fleet.not_mutuallyExclusive`).
-/

namespace EntityCache

namespace Cluster

open Firing Function

/-! ## Properties of worlds -/

/-- The owner token of a node, if it has a valid identity. -/
def Node.identity? (node : Node) : Option String :=
  ((node.resolver.bind (·.cached)).filter (·.identity.valid)).map (·.identity.value)

namespace World

/-- The clock has not reached the expiry of any flight's lock. -/
def Punctual (w : World) : Prop := w.outline.Punctual

instance (w : World) : Decidable w.Punctual :=
  decidable_of_iff (∀ entry ∈ w.flights.toList, ∀ held ∈ entry.2.lock,
      w.now < w.outline.expiry entry.2 held)
    ⟨fun h id f held hf hheld =>
      h (id, f) (Std.ExtTreeMap.mem_toList_iff_getElem?_eq_some.2 hf) held hheld,
    fun h entry hentry held hheld =>
      h entry.1 entry.2 held (Std.ExtTreeMap.mem_toList_iff_getElem?_eq_some.1 hentry) hheld⟩

/-- The clock has not reached the expiry of any flight's lock unless a heartbeat of it has
failed. -/
def Attended (w : World) : Prop :=
  ∀ (id : Nat) (f : Flight) (held : HeldLock), w.flights[id]? = some f → f.lock = some held →
    held.lost = false → w.now < w.outline.expiry f held

instance (w : World) : Decidable w.Attended :=
  decidable_of_iff (∀ entry ∈ w.flights.toList, ∀ held ∈ entry.2.lock, held.lost = false →
      w.now < w.outline.expiry entry.2 held)
    ⟨fun h id f held hf hheld =>
      h (id, f) (Std.ExtTreeMap.mem_toList_iff_getElem?_eq_some.2 hf) held hheld,
    fun h entry hentry held hheld =>
      h entry.1 entry.2 held (Std.ExtTreeMap.mem_toList_iff_getElem?_eq_some.1 hentry) hheld⟩

/-- No agent is executed by two flights. -/
def ExecutesOnce (w : World) : Prop :=
  ∀ (i j : Nat) (f g : Flight), w.flights[i]? = some f → w.flights[j]? = some g →
    f.execution.isSome → g.execution.isSome → f.agent = g.agent → i = j

instance (w : World) : Decidable w.ExecutesOnce :=
  decidable_of_iff (∀ entry ∈ w.flights.toList, ∀ other ∈ w.flights.toList,
      entry.2.execution.isSome → other.2.execution.isSome → entry.2.agent = other.2.agent →
        entry.1 = other.1)
    ⟨fun h i j f g hf hg =>
      h (i, f) (Std.ExtTreeMap.mem_toList_iff_getElem?_eq_some.2 hf) (j, g)
        (Std.ExtTreeMap.mem_toList_iff_getElem?_eq_some.2 hg),
    fun h entry hentry other hother =>
      h entry.1 other.1 entry.2 other.2 (Std.ExtTreeMap.mem_toList_iff_getElem?_eq_some.1 hentry)
        (Std.ExtTreeMap.mem_toList_iff_getElem?_eq_some.1 hother)⟩

/-- At this moment no two nodes have a valid identity in common. -/
def Different (w : World) : Prop :=
  ∀ (name other : String) (node node' : Node), w.nodes[name]? = some node →
    w.nodes[other]? = some node' → name ≠ other →
      ∀ value ∈ node.identity?, value ∉ node'.identity?

instance (w : World) : Decidable w.Different :=
  decidable_of_iff (∀ entry ∈ w.nodes.toList, ∀ other ∈ w.nodes.toList, entry.1 ≠ other.1 →
      ∀ value ∈ entry.2.identity?, value ∉ other.2.identity?)
    ⟨fun h name other node node' hnode hnode' =>
      h (name, node) (Std.ExtTreeMap.mem_toList_iff_getElem?_eq_some.2 hnode) (other, node')
        (Std.ExtTreeMap.mem_toList_iff_getElem?_eq_some.2 hnode'),
    fun h entry hentry other hother =>
      h entry.1 other.1 entry.2 other.2 (Std.ExtTreeMap.mem_toList_iff_getElem?_eq_some.1 hentry)
        (Std.ExtTreeMap.mem_toList_iff_getElem?_eq_some.1 hother)⟩

end World

/-- An act releases no abandoned lock that a flight holds as the same owner. -/
def Act.Spares (a : Act) (w : World) : Prop := w.outline.Spared a

/-- The invariant of a fleet that shares its agents. -/
structure Outline.Exclusive (own : String → String → Prop) (lockPrefix : String) (c : Outline) :
    Prop extends c.Ordered own lockPrefix where
  leased : c.Leased

/-! ## Runs -/

namespace World

variable {own : String → String → Prop} {lockPrefix : String} {a : Act} {acts : List Act}
  {w : World}

/-- An act keeps the invariant. -/
theorem exclusive_act (h : w.outline.Exclusive own lockPrefix) (hown : Distinct own)
    (hpunctual : w.Punctual) (hspares : a.Spares w) :
    (w.act a).outline.Exclusive own lockPrefix := by
  have hstep := step_act a w
  have hleased := h.leased.step h.toOrdered hown hpunctual hspares hstep
  exact ⟨h.toOrdered.step hstep, hleased⟩

/-- The invariant of a fleet excludes that an agent is executed twice. -/
theorem executesOnce_of_exclusive (h : w.outline.Exclusive own lockPrefix)
    (hown : Distinct own) : w.ExecutesOnce := by
  intro i j f g hf hg hfexecutes hgexecutes hagent
  obtain ⟨held, hheld⟩ := h.flying.locked hf hfexecutes
  obtain ⟨held', hheld'⟩ := h.flying.locked hg hgexecutes
  exact h.leased.alone h.toOrdered hown hf hg hheld hheld' hagent

/-- Where no flight is abandoned, no lock is left to be released. -/
theorem releases_act (ha : ∀ id, a ≠ .move (.abandon id)) (h : w.releases = []) :
    (w.act a).releases = [] := by
  have hstep := step_act a w
  have hnone : w.outline.releases = [] := h
  generalize hc : w.outline = c at hstep hnone
  generalize hc' : (w.act a).outline = c' at hstep
  suffices hsuff : c'.releases = [] by
    rw [← hc'] at hsuff
    exact hsuff
  cases hstep with
  | rest | launch | land | beat => exact hnone
  | resume flies asks served =>
    obtain ⟨-, -, -, -, -, hreleases⟩ := served.frame
    exact hreleases.trans hnone
  | release left => simp [hnone] at left
  | abandon => exact absurd rfl (ha _)

/-- A run without abandoned flights executes no agent twice at any moment. -/
theorem always_executesOnce (h : w.outline.Exclusive own lockPrefix) (hown : Distinct own)
    (hreleases : w.releases = []) (habandon : ∀ id, .move (.abandon id) ∉ acts)
    (hpunctual : w.Always Punctual acts) : w.Always ExecutesOnce acts := by
  induction acts generalizing w with
  | nil => exact executesOnce_of_exclusive h hown
  | cons a acts ih =>
    refine ⟨executesOnce_of_exclusive h hown, ?_⟩
    -- there is no abandoned lock that could be released
    have hspares : a.Spares w := by
      rw [Act.Spares, Outline.Spared.eq_def]
      split
      · intro left hleft
        simp [World.outline, hreleases] at hleft
      · trivial
    have ha (id : Nat) : a ≠ .move (.abandon id) := fun heq =>
      habandon id (heq ▸ List.mem_cons_self)
    refine ih (exclusive_act h hown hpunctual.1 hspares) (releases_act ha hreleases)
      (fun id hmem => habandon id (List.mem_cons_of_mem _ hmem)) hpunctual.2

end World

/-! ## New fleets -/

/-- The identities that a node of a plan can ever have. -/
def NodePlan.identities (plan : NodePlan) : List Identity :=
  (plan.probes.getD []).map fun result => .ofHost plan.process result.host

/-- No valid identity of a node is ever one of another node. -/
def Apart (plans : List NodePlan) : Prop :=
  ∀ plan ∈ plans, ∀ other ∈ plans, plan.name ≠ other.name →
    ∀ identity ∈ plan.identities, ∀ identity' ∈ other.identities,
      identity.valid = true → identity'.valid = true → identity.value ≠ identity'.value

/-- The owner tokens of a node. -/
def Owns (plans : List NodePlan) (name value : String) : Prop :=
  ∃ plan ∈ plans, plan.name = name ∧
    ∃ identity ∈ plan.identities, identity.valid = true ∧ identity.value = value

/-- Plans that are apart never resolve to the same owner. -/
theorem Apart.distinct {plans : List NodePlan} (h : Apart plans) : Distinct (Owns plans) := by
  rintro name other value ⟨plan, hplan, rfl, identity, hmem, hvalid, rfl⟩
    ⟨plan', hplan', rfl, identity', hmem', hvalid', hvalue⟩
  by_contra hne
  exact h plan hplan plan' hplan' hne identity hmem identity' hmem' hvalid hvalid' hvalue.symm

namespace Fleet

variable {plans : List NodePlan} {locks : Lock.Faulty} {lockPrefix : String} {fleet : Fleet}
  {acts : List Act}

/-- A node of a list has been made of one of the plans. -/
theorem mem_nodes? {nodes : List (String × Node)} (h : nodes? plans = some nodes) {name : String}
    {node : Node} (hmem : (name, node) ∈ nodes) :
    ∃ plan ∈ plans, plan.name = name ∧ node? plan = some node := by
  -- nodes are made in the order of the plans, each from its own
  induction plans generalizing nodes with
  | nil =>
    obtain rfl : [] = nodes := Option.some.inj h
    simp at hmem
  | cons plan rest ih =>
    unfold nodes? at h
    cases hnode : node? plan with
    | none => simp [hnode] at h
    | some made =>
      cases hrest : nodes? rest with
      | none => simp [hnode, hrest] at h
      | some others =>
        simp only [hnode, hrest, Option.some.injEq] at h
        subst h
        rcases List.mem_cons.1 hmem with heq | hmem
        · obtain ⟨rfl, rfl⟩ := Prod.mk.inj heq
          exact ⟨plan, List.mem_cons_self, rfl, hnode⟩
        · obtain ⟨plan', hplan', hname, hnode'⟩ := ih hrest hmem
          exact ⟨plan', List.mem_cons_of_mem _ hplan', hname, hnode'⟩

/-- What is found in a map that is made of a list is in the list. -/
theorem mem_of_getElem?_insertMany {l : List (String × Node)} {t : Std.ExtTreeMap String Node}
    {name : String} {node : Node} (h : (t.insertMany l)[name]? = some node) :
    (name, node) ∈ l ∨ t[name]? = some node := by
  induction l generalizing t with
  | nil => exact .inr (by simpa using h)
  | cons entry l ih =>
    rw [Std.ExtTreeMap.insertMany_cons] at h
    rcases ih h with hmem | hold
    · exact .inl (List.mem_cons_of_mem _ hmem)
    · rw [Std.ExtTreeMap.getElem?_insert] at hold
      split at hold
      case isTrue heq =>
        have hname : entry.1 = name := by simpa using heq
        obtain rfl := Option.some.inj hold
        exact .inl (hname ▸ List.mem_cons_self)
      case isFalse => exact .inr hold

/-- A node of a new fleet has been made of one of its plans. -/
theorem exists_plan_new (hnew : new? plans locks = some fleet) {name : String} {node : Node}
    (hnode : fleet.world.nodes[name]? = some node) :
    ∃ plan ∈ plans, plan.name = name ∧ node? plan = some node := by
  obtain ⟨nodes, hnodes, rfl⟩ := Option.map_eq_some_iff.1 hnew
  simp only [Std.ExtTreeMap.ofList_eq_insertMany_empty] at hnode
  have hmem : (name, node) ∈ nodes := by
    simpa using mem_of_getElem?_insertMany hnode
  exact mem_nodes? hnodes hmem

/-- What there is of a node that shares its agents, before any flight takes off. -/
theorem post_new (hnew : new? plans locks = some fleet)
    (hshared : ∀ plan ∈ plans, plan.probes.isSome) {name : String} {post : Post}
    (hpost : fleet.world.outline.nodes name = some post) :
    ∃ plan ∈ plans, plan.name = name ∧
      fleet.world.outline.settings (some name) = plan.cluster ∧
      fleet.world.outline.process name = plan.process ∧
      ∃ results, plan.probes = some results ∧
        post = ⟨some { refresh := plan.refresh, results }, ∅⟩ := by
  obtain ⟨node, hnode, rfl⟩ := Option.map_eq_some_iff.1 hpost
  obtain ⟨plan, hplan, hname, hmade⟩ := exists_plan_new hnew hnode
  obtain ⟨results, hresults⟩ := Option.isSome_iff_exists.1 (hshared plan hplan)
  obtain ⟨runner, -, rfl⟩ := Option.map_eq_some_iff.1 hmade
  refine ⟨plan, hplan, hname, ?_, ?_, results, hresults, ?_⟩
  · simp [World.outline, World.settings, hnode]
  · simp [World.outline, hnode]
  · simp [Node.post, hresults]

/-- In a new fleet nothing flies. -/
theorem no_flight_new (hnew : new? plans locks = some fleet) (id : Nat) :
    fleet.world.outline.flights id = none := by
  obtain ⟨nodes, -, rfl⟩ := Option.map_eq_some_iff.1 hnew
  simp [World.outline]

/-- In a new fleet whose nodes share their agents all flights keep to the protocol. -/
theorem flying_new (hnew : new? plans locks = some fleet)
    (hshared : ∀ plan ∈ plans, plan.probes.isSome) :
    fleet.world.outline.Flying (Owns plans) := by
  refine ⟨?resolving, fun id _ => no_flight_new hnew id, fun id f hflies => ?onCourse⟩
  case resolving =>
    intro name post hpost
    obtain ⟨plan, hmem, hname, -, hprocess, results, hresults, rfl⟩ := post_new hnew hshared hpost
    -- nothing has been probed yet, so only what the probes will find matters
    refine ⟨_, rfl, fun result hresult hvalid => ?_, fun c hc => by simp at hc, by simp⟩
    rw [hprocess] at hvalid ⊢
    refine ⟨plan, hmem, hname, _, ?_, hvalid, rfl⟩
    rw [NodePlan.identities, hresults]
    exact List.mem_map.2 ⟨result, hresult, rfl⟩
  case onCourse => cases (no_flight_new hnew id).symm.trans hflies

/-- In a new fleet whose nodes share their agents nothing is marked. -/
theorem marked_new (hnew : new? plans locks = some fleet)
    (hshared : ∀ plan ∈ plans, plan.probes.isSome) : fleet.world.outline.Marked := by
  have hnobody (name agent : String) (id : Nat) : ¬fleet.world.outline.Entered name agent id := by
    rintro ⟨f, hflies, -⟩
    cases (no_flight_new hnew id).symm.trans hflies
  refine ⟨fun id f name hflies => ?placed, fun name post agent hpost => ?active,
    fun name agent i j hi => absurd hi (hnobody name agent i)⟩
  case placed => cases (no_flight_new hnew id).symm.trans hflies
  case active =>
    obtain ⟨plan, -, -, -, -, results, -, rfl⟩ := post_new hnew hshared hpost
    exact iff_of_false (by simp) fun ⟨id, hid⟩ => hnobody name agent id hid

/-- The invariant holds in a new fleet whose nodes all share their agents and name their locks
alike. -/
theorem exclusive_new (hnew : new? plans locks = some fleet)
    (hshared : ∀ plan ∈ plans, plan.probes.isSome)
    (hnamed : ∀ plan ∈ plans, plan.cluster.lockPrefix = lockPrefix)
    (hsound : locks.backing.Sound) :
    fleet.world.outline.Exclusive (Owns plans) lockPrefix := by
  have hlocks : fleet.world.outline.locks = locks := by
    obtain ⟨nodes, -, rfl⟩ := Option.map_eq_some_iff.1 hnew
    rfl
  refine ⟨⟨flying_new hnew hshared, marked_new hnew hshared, fun name hthere => ?named⟩, ?sound,
    fun id f _ hflies => ?kept⟩
  case named =>
    obtain ⟨post, hpost⟩ := Option.isSome_iff_exists.1 hthere
    obtain ⟨plan, hplan, -, hcluster, -⟩ := post_new hnew hshared hpost
    rw [hcluster]
    exact hnamed plan hplan
  case sound => rwa [hlocks]
  case kept => cases (no_flight_new hnew id).symm.trans hflies

/-- In a fleet whose nodes share their agents and name the lock of an agent alike, and have no valid
identity in common, not even at different times, every run in which no flight is abandoned and the
leases of flights stay in force executes an agent by at most one flight at any moment.  Each node
has its own lifetime of locks and interval of heartbeats.  The lock service may hold leases of
anybody at the start, and refuse or fail any request; a table of locks has a row for each name. -/
theorem executesOnce (hnew : new? plans locks = some fleet)
    (hshared : ∀ plan ∈ plans, plan.probes.isSome)
    (hnamed : ∀ plan ∈ plans, plan.cluster.lockPrefix = lockPrefix) (hapart : Apart plans)
    (hsound : locks.backing.Sound) (habandon : ∀ id, .move (.abandon id) ∉ acts)
    (hpunctual : fleet.world.Always World.Punctual acts) :
    fleet.world.Always World.ExecutesOnce acts := by
  have hreleases : fleet.world.releases = [] := by
    obtain ⟨nodes, -, rfl⟩ := Option.map_eq_some_iff.1 hnew
    rfl
  exact World.always_executesOnce (exclusive_new hnew hshared hnamed hsound) hapart.distinct
    hreleases habandon hpunctual

/-- Two nodes with an address each. -/
def twoNodes : List NodePlan :=
  [{ name := "a", settings := .default .one, process := "1"
     probes := some [⟨some "10.0.0.1", 0⟩] },
    { name := "b", settings := .default .one, process := "1"
      probes := some [⟨some "10.0.0.2", 0⟩] }]

/-- The two nodes have names, hosts and addresses of their own. -/
theorem apart_twoNodes : Apart twoNodes := by
  have hvalues : ∀ plan ∈ twoNodes, ∀ other ∈ twoNodes, plan.name ≠ other.name →
      ∀ identity ∈ plan.identities, ∀ identity' ∈ other.identities,
        identity.value ≠ identity'.value := by decide
  intro plan hplan other hother hne i hi j hj _ _
  exact hvalues plan hplan other hother hne i hi j hj

/-- The first node executes an agent.  Its first heartbeat comes late, the second one on its moment,
but is refused; then the other node asks for the lock. -/
def encounter : List Act :=
  .start "a" "agent" {} :: List.replicate 11 (.move (.resume 0)) ++
    .move (.pass 120000) :: .move (.beat 0) :: .move (.pass 80000) :: .move (.beat 0) ::
      .start "b" "agent" {} :: List.replicate 11 (.move (.resume 1))

/-- A heartbeat is refused in this run, and still only one node executes at a time. -/
theorem executesOnce_encounter :
    ∃ fleet, new? twoNodes { backing := .memory ∅, onHeartbeat := [.pass, .refuse] } =
        some fleet ∧
      ((fleet.world.run encounter).flights[0]?.bind (·.execution)).isSome = true ∧
      fleet.world.Always World.ExecutesOnce encounter := by
  have hnew : new? twoNodes { backing := .memory ∅, onHeartbeat := [.pass, .refuse] } =
      some _ := rfl
  have hnamed : ∀ plan ∈ twoNodes, plan.cluster.lockPrefix = "agent-lock:" := by decide
  refine ⟨_, hnew, by decide +kernel,
    executesOnce hnew (by decide) hnamed apart_twoNodes trivial ?_ ?_⟩
  · intro id
    simp [encounter]
  · decide +kernel

/-- Every run of nodes that share their agents executes an agent by at most one flight at any moment
if it abandons none, the nodes are told apart as `apart` says, and the clock is kept from the expiry
of locks as `intime` says. -/
def MutuallyExclusive (apart : List NodePlan → Fleet → List Act → Prop) (intime : World → Prop) :
    Prop :=
  ∀ (plans : List NodePlan) (locks : Lock.Faulty) (lockPrefix : String) (fleet : Fleet)
    (acts : List Act), new? plans locks = some fleet → (∀ plan ∈ plans, plan.probes.isSome) →
    (∀ plan ∈ plans, plan.cluster.lockPrefix = lockPrefix) → locks.backing.Sound →
    apart plans fleet acts → (∀ id, .move (.abandon id) ∉ acts) →
    fleet.world.Always intime acts → fleet.world.Always World.ExecutesOnce acts

/-- Two nodes, the second of which comes to have the address that the first one has had. -/
def movingNodes : List NodePlan :=
  [{ name := "a", settings := .default .one, process := "1"
     probes := some [⟨some "10.0.0.1", 0⟩, ⟨some "10.0.0.2", 0⟩] },
    { name := "b", settings := .default .one, process := "1"
      probes := some [⟨some "10.0.0.1", 0⟩] }]

/-- While the first node executes an agent, its address changes; then the second node gets its old
address, and executes the agent, too. -/
def handover : List Act :=
  .start "a" "agent" {} :: List.replicate 11 (.move (.resume 0)) ++
    .move (.pass 30000) :: .start "a" "other" {} :: List.replicate 7 (.move (.resume 1)) ++
      .start "b" "agent" {} :: List.replicate 11 (.move (.resume 2))

/-- The first node executes an agent, and its heartbeat fails.  Before it learns of that, the lease
expires, and the second node executes the agent, too. -/
def outage : List Act :=
  .start "a" "agent" {} :: List.replicate 11 (.move (.resume 0)) ++
    .move (.pass 100000) :: .move (.beat 0) :: .move (.pass 200000) ::
      .start "b" "agent" {} :: List.replicate 11 (.move (.resume 1))

/-- It is not enough that no two nodes have a valid identity in common at any moment, nor that the
clock reaches the expiry of a lock only after the next heartbeat has been tried. -/
theorem not_mutuallyExclusive :
    ¬MutuallyExclusive (fun _ fleet acts => fleet.world.Always World.Different acts)
      World.Punctual ∧
    ¬MutuallyExclusive (fun plans _ _ => Apart plans) World.Attended := by
  constructor
  · intro hexclusive
    have honce := hexclusive movingNodes { backing := .memory ∅ } "agent-lock:" _ handover rfl
      (by decide) (by decide) trivial (by decide +kernel) (fun id => by simp [handover])
      (by decide +kernel)
    exact absurd honce (by decide +kernel)
  · intro hexclusive
    have honce := hexclusive twoNodes
      { backing := .database {}, onHeartbeat := [.fail (.connection "closed")] } "agent-lock:" _
      outage rfl (by decide) (by decide) List.nodup_nil apart_twoNodes
      (fun id => by simp [outage]) (by decide +kernel)
    exact absurd honce (by decide +kernel)

end Fleet

end Cluster

end EntityCache
