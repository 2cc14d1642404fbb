import EntityCache.Proofs.Cluster.Outline

/-!
# Every act is a step

What a fleet does, as far as an outline shows it.  The lemmas follow the definitions of
`Cluster.Step` one by one, from the changes of a node and the answers of requests up to the moves;
`World.step_act` puts them together.  No other module opens these definitions.
-/

namespace EntityCache

namespace Cluster

open Firing Function

namespace World

variable {w w' : World} {id : Nat} {f : Flight}

/-! ## Changes of a world -/

theorem outline_askLock (agent : String) (r : Lock.Request) (w : World) :
    (w.askLock agent r).2.outline = w.outline.ask r := rfl

/-- What is found after an insertion. -/
theorem getElem?_insert_eq_update {α : Type} (t : Std.ExtTreeMap Nat α) (id : Nat) (a : α) :
    (fun other => (t.insert id a)[other]?) = update (fun other => t[other]?) id (some a) := by
  funext other
  by_cases heq : other = id
  · subst heq
    simp
  · have hne : id ≠ other := Ne.symm heq
    simp [Std.ExtTreeMap.getElem?_insert, heq, hne]

/-- What is found after a removal. -/
theorem getElem?_erase_eq_update {α : Type} (t : Std.ExtTreeMap Nat α) (id : Nat) :
    (fun other => (t.erase id)[other]?) = update (fun other => t[other]?) id none := by
  funext other
  by_cases heq : other = id
  · subst heq
    simp
  · have hne : id ≠ other := Ne.symm heq
    simp [Std.ExtTreeMap.getElem?_erase, heq, hne]

/-- A flight that is put in place shows on the outline. -/
theorem outline_insert (id : Nat) (f : Flight) (w : World) :
    ({ w with flights := w.flights.insert id f } : World).outline = w.outline.put id (some f) := by
  simp only [outline, settings, getElem?_insert_eq_update, Outline.put]

/-- A flight that is taken away leaves the outline. -/
theorem outline_erase (id : Nat) (w : World) :
    ({ w with flights := w.flights.erase id } : World).outline = w.outline.put id none := by
  simp only [outline, settings, getElem?_erase_eq_update, Outline.put]

/-- A flight that changes shows its change on the outline. -/
theorem outline_modifyFlight (h : w.flights[id]? = some f) (g : Flight → Flight) :
    (w.modifyFlight id g).outline = w.outline.put id (some (g f)) := by
  rw [← outline_insert]
  simp only [modifyFlight, h]

/-- A change to a node reaches no other. -/
theorem getElem?_modifyNode (name other : String) (g : Node → Node) (w : World) :
    (w.modifyNode name g).nodes[other]? =
      if name = other then w.nodes[other]?.map g else w.nodes[other]? := by
  unfold modifyNode
  by_cases heq : name = other
  · subst heq
    cases hnode : w.nodes[name]? with
    | none => simp [hnode]
    | some node => simp
  · cases hnode : w.nodes[name]? with
    | none => simp [heq]
    | some node => simp [Std.ExtTreeMap.getElem?_insert, heq]

/-- What is read off nodes stays if the change of a node does not touch it. -/
theorem elim_modifyNode {α : Type} (name other : String) {g : Node → Node} {read : Node → α}
    (h : ∀ node, read (g node) = read node) (none : α) (w : World) :
    (w.modifyNode name g).nodes[other]?.elim none read = w.nodes[other]?.elim none read := by
  rw [getElem?_modifyNode]
  split
  · cases w.nodes[other]? <;> simp [h]
  · rfl

/-- Of a changed node an outline has what flights see of it. -/
theorem outline_modifyNode (name : String) {g : Node → Node} (change : Post → Post)
    (h : ∀ node, (g node).post = change node.post ∧ (g node).cluster = node.cluster ∧
      (g node).process = node.process) (w : World) :
    (w.modifyNode name g).outline = w.outline.amend (some name) change := by
  have hnodes : (fun other => ((w.modifyNode name g).nodes[other]?).map Node.post) =
      (w.outline.amend (some name) change).nodes := by
    funext other
    simp only [getElem?_modifyNode, Outline.amend, outline, Option.some.injEq]
    split
    · cases w.nodes[other]? <;> simp [h]
    · rfl
  -- the settings and the process of a node are read through the node, and do not change
  have hsettings : (fun place => (w.modifyNode name g).settings place) =
      fun place => w.settings place := by
    funext place
    cases place with
    | none => rfl
    | some other => exact elim_modifyNode name other (fun node => (h node).2.1) {} w
  have hprocess : (fun other => (w.modifyNode name g).nodes[other]?.elim "" Node.process) =
      fun other => w.nodes[other]?.elim "" Node.process :=
    funext fun other => elim_modifyNode name other (fun node => (h node).2.2) "" w
  rw [outline, hnodes, hsettings, hprocess, modifyNode]
  cases w.nodes[name]? <;> rfl

/-- Changes of runners are not seen. -/
theorem outline_modifyRunner (name : String) (change : Schedule.Runner → Schedule.Runner)
    (w : World) :
    (w.modifyNode name fun node => { node with runner := change node.runner }).outline =
      w.outline := by
  have hnode := outline_modifyNode name
    (g := fun node => { node with runner := change node.runner }) id (fun _ => ⟨rfl, rfl, rfl⟩) w
  rw [hnode, Outline.amend_id]

/-- A mark shows at the node and at the flight. -/
theorem outline_setActive (h : w.flights[id]? = some f) (active : Bool) :
    (w.setActive id f active).outline =
      (w.outline.amend f.node (Post.mark f.agent active)).put id
        (some { f with entered := active }) := by
  unfold setActive
  cases hnode : f.node with
  | none =>
    simp only [outline_modifyFlight h, hnode]
    rfl
  | some name =>
    have hmarked (w : World) := outline_modifyNode name (g := fun node => { node with
        active := if active then node.active.insert f.agent else node.active.erase f.agent })
      (Post.mark f.agent active) (fun _ => ⟨rfl, rfl, rfl⟩) w
    simp only [hmarked, outline_modifyFlight h, hnode]
    rfl

/-! ## Answers -/

/-- The answer of a call: only whether an execution is under way is seen. -/
theorem outline_serveAgent (h : w.flights[id]? = some f) {r : AgentRequest} {reply : r.Reply}
    (hserve : serveAgent id f r w = some (reply, w')) :
    ∃ execution : Option (Nat × Nat), execution.isSome = r.leaves f.execution.isSome ∧
      w'.outline = w.outline.put id (some { f with execution }) := by
  cases r with
  | started | completed | failed =>
    obtain rfl : _ = w' := (Prod.mk.inj (Option.some.inj hserve)).2
    exact ⟨f.execution, rfl, (Outline.put_self h).symm⟩
  | execute =>
    obtain rfl : _ = w' := (Prod.mk.inj (Option.some.inj hserve)).2
    have hflies : (World.record f.agent (.execute (w.scripts.getD f.job {}).execute.1)
      (w.consult f.job Script.execute).2).flights[id]? = some f := h
    exact ⟨some _, rfl, outline_modifyFlight hflies _⟩
  | finish =>
    unfold serveAgent at hserve
    cases hexecution : f.execution with
    | none =>
      -- there is nothing to finish
      obtain ⟨-, rfl⟩ : _ ∧ w = w' := by simpa [hexecution] using hserve
      refine ⟨none, rfl, ?_⟩
      rw [← hexecution]
      exact (Outline.put_self h).symm
    | some execution =>
      simp only [hexecution, Option.ite_none_right_eq_some, Option.some.injEq, Prod.mk.injEq]
        at hserve
      obtain ⟨-, -, rfl⟩ := hserve
      have hflies : (w.record f.agent (.executed execution.1)).flights[id]? = some f := h
      exact ⟨none, rfl, outline_modifyFlight hflies _⟩

/-- The answer of the resolver of a flight's node. -/
theorem outline_serveResolver (h : w.flights[id]? = some f) {q : Identity.Request} {reply : q.Reply}
    (hserve : serveResolver id f q w = some (reply, w')) :
    ∃ f' c', Outline.Served id f w.outline (.resolve q) reply f' c' ∧
      w'.outline = c'.put id (some f') := by
  unfold serveResolver at hserve
  cases hname : f.node with
  | none => simp [hname] at hserve
  | some name =>
    cases hnode : w.nodes[name]? with
    | none => simp [hname, hnode] at hserve
    | some node =>
      cases hresolver : node.resolver with
      | none => simp [hname, hnode, hresolver] at hserve
      | some resolver =>
        simp only [hname, hnode, hresolver, Option.map_eq_some_iff, Prod.exists,
          Prod.mk.injEq] at hserve
        obtain ⟨answer, resolver', hanswer, rfl, rfl⟩ := hserve
        have hpost : w.outline.nodes name = some node.post := by simp [outline, hnode]
        refine ⟨f, _, ⟨name, node.post, resolver, resolver', hname, hpost, hresolver, hanswer,
          rfl, rfl⟩, ?_⟩
        -- the answer changes the resolver of the node, and nothing else that the outline shows
        have hnodes := outline_modifyNode name
          (g := fun node => { node with resolver := some resolver' })
          (fun post => { post with resolver := some resolver' }) (fun _ => ⟨rfl, rfl, rfl⟩) w
        simp only [modifyNode, hnode] at hnodes
        rw [hnodes, hname]
        exact (Outline.put_self h).symm

/-- An agent is active if its node has it on the list. -/
theorem isActive_iff (f : Flight) (w : World) : w.isActive f = true ↔ w.outline.Active f := by
  rw [isActive, Outline.Active]
  cases hname : f.node with
  | none => simp
  | some name => cases hnode : w.nodes[name]? <;> simp [outline, hnode, Node.post]

/-- The answer of a request. -/
theorem outline_serve (h : w.flights[id]? = some f) {r : Request} {reply : r.Reply}
    (hserve : serve id f r w = some (reply, w')) :
    ∃ f' c', Outline.Served id f w.outline r reply f' c' ∧ w'.outline = c'.put id (some f') := by
  cases r with
  | resolve q => exact outline_serveResolver h hserve
  | enter =>
    rw [serve] at hserve
    split at hserve
    case isTrue =>
      obtain ⟨rfl, rfl⟩ := Prod.mk.inj (Option.some.inj hserve)
      exact ⟨_, _, .inl ⟨rfl, rfl, rfl⟩, (Outline.put_self h).symm⟩
    case isFalse hfree =>
      obtain ⟨rfl, rfl⟩ := Prod.mk.inj (Option.some.inj hserve)
      have hinactive : ¬w.outline.Active f := mt (isActive_iff f w).2 hfree
      exact ⟨_, _, .inr ⟨rfl, hinactive, rfl, rfl⟩, outline_setActive h true⟩
  | leave =>
    obtain rfl : _ = w' := (Prod.mk.inj (Option.some.inj hserve)).2
    exact ⟨_, _, ⟨rfl, rfl⟩, outline_setActive h false⟩
  | acquire owner =>
    simp only [serve] at hserve
    split at hserve
    case h_1 hreply =>
      obtain ⟨rfl, rfl⟩ := Prod.mk.inj (Option.some.inj hserve)
      refine ⟨_, _, ⟨hreply.symm, rfl, fun _ => rfl, fun hne => absurd rfl hne⟩, ?_⟩
      have hflies : (w.askLock f.agent (w.outline.acquire f owner)).2.flights[id]? = some f := h
      exact outline_modifyFlight hflies _
    -- an acquisition that fails leaves the flight as it was, as does one that is refused
    case h_2 hreply =>
      obtain ⟨rfl, rfl⟩ := Prod.mk.inj (Option.some.inj hserve)
      refine ⟨_, _, ⟨rfl, rfl, fun h => absurd h hreply, fun _ => rfl⟩, ?_⟩
      exact (Outline.put_self (c := w.outline.ask (w.outline.acquire f owner)) h).symm
  | release owner =>
    obtain rfl : _ = w' := (Prod.mk.inj (Option.some.inj hserve)).2
    refine ⟨_, _, ⟨rfl, rfl⟩, ?_⟩
    have hkey (w : World) : w.lockKey f = w.outline.lockKey f := rfl
    rw [outline_askLock, hkey, outline_modifyFlight h]
    rfl
  | call r =>
    obtain ⟨execution, hexecution, hw'⟩ := outline_serveAgent h hserve
    exact ⟨_, _, ⟨rfl, execution, rfl, hexecution⟩, hw'⟩
  | guarded r =>
    rw [serve] at hserve
    split at hserve
    case isTrue =>
      obtain ⟨rfl, rfl⟩ := Prod.mk.inj (Option.some.inj hserve)
      exact ⟨_, _, ⟨rfl, none, rfl, .inl ⟨rfl, rfl⟩⟩, outline_modifyFlight h _⟩
    case isFalse =>
      simp only [Option.map_eq_some_iff, Prod.exists, Prod.mk.injEq] at hserve
      obtain ⟨answer, w₁, hagent, rfl, rfl⟩ := hserve
      obtain ⟨execution, hexecution, hw'⟩ := outline_serveAgent h hagent
      exact ⟨_, _, ⟨rfl, execution, rfl, .inr ⟨rfl, hexecution⟩⟩, hw'⟩

/-! ## Moves -/

/-- A launch shows the new flight on the outline. -/
theorem outline_launch (f : Flight) (w : World) :
    (w.launch f).2.outline = w.outline.launch f := by
  rw [Outline.launch, show w.outline.nextFlight = w.nextFlight from rfl, ← outline_insert]
  rfl

/-- A flight that takes off on a node that is there. -/
theorem step_launch {a : Act} {name agent : String} {node : Node}
    (hnode : w.nodes[name]? = some node) (job : Nat) (task : Option Nat) :
    Outline.Step a w.outline (w.launch
      { agent, job, node := some name, task,
        program := w.firing agent (some name) }).2.outline := by
  have hpost : w.outline.nodes name = some node.post := by simp [outline, hnode]
  have hfiring : w.firing agent (some name) = w.outline.firing agent name := by
    have hsome : (∃ post, w.outline.nodes name = some post ∧ post.resolver.isSome) ↔
        node.resolver.isSome := by simp [hpost, Node.post]
    have hprocess : w.outline.process name = node.process := by simp [outline, hnode]
    simp only [firing, Outline.firing, hsome, hprocess, Option.bind_some, hnode]
    rcases node with ⟨runner, cluster, process, _ | resolver, active⟩ <;> simp
  rw [outline_launch, hfiring]
  exact .launch hpost

/-- Nothing happens. -/
theorem step_rest {a : Act} (h : w'.outline = w.outline) :
    Outline.Step a w.outline w'.outline := by
  rw [h]
  exact .rest (Nat.le_refl _)

/-- A grant launches a flight or does nothing. -/
theorem step_grant (name : String) (w : World) :
    Outline.Step (.move (.grant name)) w.outline (w.grant name).outline := by
  unfold grant
  cases hnode : w.nodes[name]? with
  | none => exact step_rest rfl
  | some node =>
    cases hgrant : node.runner.grant? with
    | none => simp only [hgrant]; exact step_rest rfl
    | some granted =>
      cases htask : granted.2.tasks[granted.1]? with
      | none => simp only [hgrant, htask]; exact step_rest rfl
      | some task =>
        simp only [hgrant, htask]
        -- the runner is changed first, which is not seen; the flight takes off after that
        have hmodify : w.modifyNode name (fun node => { node with runner := granted.2 }) =
            { w with nodes := w.nodes.insert name { node with runner := granted.2 } } := by
          simp only [modifyNode, hnode]
        have hsame := outline_modifyRunner name (fun _ => granted.2) w
        rw [hmodify] at hsame
        rw [← hsame]
        exact step_launch (Std.ExtTreeMap.getElem?_insert_self) task.job (some granted.1)

/-- A flight that lands leaves the outline; the rest is for the scheduler. -/
theorem outline_land (id : Nat) (f : Flight) (ended : Ended) (w : World) :
    (w.land id f ended).outline = w.outline.put id none := by
  rw [land, ← outline_erase]
  split
  · exact outline_modifyRunner _ _ _
  · rfl

/-- A flight that is over lands. -/
theorem step_land (h : w.flights[id]? = some f) {ended : Ended} (hdone : f.program = .done ended) :
    Outline.Step (.move (.resume id)) w.outline (w.land id f ended).outline := by
  rw [outline_land]
  exact .land h hdone

/-- A flight whose request is answered goes on with its program. -/
theorem outline_resume (hflies : w.flights[id]? = some f) {r : Request}
    {next : r.Reply → Steps Ended} {reply : r.Reply} (hasks : f.program = .ask r next)
    (hserve : serve id f r w = some (reply, w')) :
    ∃ f' c', Outline.Served id f w.outline r reply f' c' ∧
      (w.resume id).outline = c'.put id (some { f' with program := next reply }) := by
  obtain ⟨f', c', hserved, hw'⟩ := outline_serve hflies hserve
  refine ⟨f', c', hserved, ?_⟩
  have hflies' : w'.flights[id]? = some f' := by
    show w'.outline.flights id = some f'
    simp [hw', Outline.put]
  unfold resume
  simp only [hflies, hasks, hserve]
  rw [outline_modifyFlight hflies', hw', Outline.put_put]

/-- A flight that goes on makes an exchange or lands. -/
theorem step_resume (id : Nat) (w : World) :
    Outline.Step (.move (.resume id)) w.outline (w.resume id).outline := by
  cases hflies : w.flights[id]? with
  | none =>
    unfold resume
    simp only [hflies]
    exact step_rest rfl
  | some f =>
    cases hprogram : f.program with
    | done ended =>
      unfold resume
      simp only [hflies, hprogram]
      exact step_land hflies hprogram
    | ask r next =>
      cases hserve : serve id f r w with
      | none =>
        unfold resume
        simp only [hflies, hprogram, hserve]
        exact step_rest rfl
      | some answer =>
        obtain ⟨f', c', hserved, houtline⟩ := outline_resume hflies hprogram hserve
        rw [houtline]
        exact .resume hflies hprogram hserved

/-- A heartbeat is sent if one is due, and moves the next one on along its grid. -/
theorem step_beat (id : Nat) (w : World) :
    Outline.Step (.move (.beat id)) w.outline (w.beat id).outline := by
  unfold beat
  cases hflies : w.flights[id]? with
  | none => exact step_rest rfl
  | some f =>
    cases hholds : f.lock with
    | none => simp only [hholds]; exact step_rest rfl
    | some held =>
      cases hbeats : held.nextBeat with
      | none => simp only [hholds, hbeats]; exact step_rest rfl
      | some due =>
        simp only [hholds, hbeats]
        split
        case isTrue hdue =>
          have hasked : (w.askLock f.agent (.heartbeat held.key held.owner
              (w.settings f.node).lockLifetime)).2.flights[id]? = some f := hflies
          rw [outline_modifyFlight hasked]
          exact .beat (c := w.outline) hflies hholds hbeats hdue rfl
        case isFalse => exact step_rest rfl

/-- A release that was left behind is made. -/
theorem step_releaseAbandoned (index : Nat) (w : World) :
    Outline.Step (.move (.release index)) w.outline (w.releaseAbandoned index).outline := by
  unfold releaseAbandoned
  cases hleft : w.releases[index]? with
  | none => exact step_rest rfl
  | some left => exact .release hleft

/-! ### Abandoned flights

A flight that is abandoned takes its mark back, leaves its lock to be released and gives its node's
resolver up; then it is gone. -/

/-- The mark of a flight is taken back, if it has one. -/
def unmark (id : Nat) (f : Flight) (w : World) : World :=
  if f.entered then w.setActive id f false else w

/-- The lock of a flight is left to be released, if it has one. -/
def leaveLock (f : Flight) (w : World) : World :=
  { w with releases := w.releases ++ f.leftLock?.toList }

/-- The resolver of a flight's node is given up, if the flight has a node. -/
def giveUp (id : Nat) (f : Flight) (w : World) : World :=
  match f.node with
  | some name => w.modifyNode name fun node =>
      { node with resolver := node.resolver.map (Resolver.abandon id) }
  | none => w

/-- To abandon a flight is to take its mark, its lock and its caller away, and then the flight. -/
theorem abandon_eq (h : w.flights[id]? = some f) :
    w.abandon id = { giveUp id f (leaveLock f (unmark id f w)) with
      flights := (giveUp id f (leaveLock f (unmark id f w))).flights.erase id } := by
  rw [abandon, h]
  rfl

/-- The flight itself may have changed with its mark, which is why it is taken out here. -/
theorem outline_unmark (h : w.flights[id]? = some f) :
    (unmark id f w).outline.put id none =
      (w.outline.amend f.node fun post =>
        if f.entered then post.mark f.agent false else post).put id none := by
  unfold unmark
  cases hentered : f.entered with
  | true =>
    rw [if_pos rfl, outline_setActive h, Outline.put_put]
    rfl
  | false =>
    rw [if_neg Bool.false_ne_true]
    exact congrArg (Outline.put id none) (Outline.amend_id f.node w.outline).symm

theorem outline_leaveLock (f : Flight) (w : World) :
    (leaveLock f w).outline = w.outline.leave f.leftLock?.toList := rfl

/-- A caller that gives up no longer waits for the identity of its node. -/
theorem outline_giveUp (id : Nat) (f : Flight) (w : World) :
    (giveUp id f w).outline = w.outline.amend f.node (Post.giveUp id) := by
  unfold giveUp
  cases f.node with
  | none => rw [Outline.amend_none]
  | some name =>
    exact outline_modifyNode name
      (g := fun node => { node with resolver := node.resolver.map (Resolver.abandon id) })
      (Post.giveUp id) (fun _ => ⟨rfl, rfl, rfl⟩) w

/-- A flight is abandoned in one step, and leaves a release behind if it held a lock. -/
theorem step_abandon (id : Nat) (w : World) :
    Outline.Step (.move (.abandon id)) w.outline (w.abandon id).outline := by
  cases hflies : w.flights[id]? with
  | none =>
    rw [abandon, hflies]
    exact step_rest rfl
  | some f =>
    have hleave : (w.abandon id).outline =
        ((w.outline.amend f.node (Post.leave id f)).put id none).leave f.leftLock?.toList := by
      rw [abandon_eq hflies, outline_erase, outline_giveUp, outline_leaveLock]
      -- what is left of the lock does not touch nodes or flights
      show (((unmark id f w).outline.put id none).amend f.node (Post.giveUp id)).leave _ = _
      rw [outline_unmark hflies, Outline.amend_put, Outline.amend_amend]
      rfl
    rw [hleave]
    exact .abandon hflies

/-! ### Every act -/

/-- Every act is a step. -/
theorem step_act (a : Act) (w : World) : Outline.Step a w.outline (w.act a).outline := by
  -- schedulers do not show on the outline, so their acts leave it at rest
  cases a with
  | move m =>
    cases m with
    | fire name task => exact step_rest (outline_modifyRunner name _ w)
    | exit name task => exact step_rest (outline_modifyRunner name _ w)
    | grant name => exact step_grant name w
    | resume id => exact step_resume id w
    | beat id => exact step_beat id w
    | release index => exact step_releaseAbandoned index w
    | abandon id => exact step_abandon id w
    | pass ms => exact .rest (Nat.le_add_right _ _)
  | start name agent script =>
    rw [act]
    split
    case isTrue hthere =>
      obtain ⟨node, hnode⟩ : ∃ node, w.nodes[name]? = some node :=
        ⟨_, Std.ExtTreeMap.getElem?_eq_some_getElem hthere⟩
      exact step_launch (w := (Fleet.addScript script w).2) hnode _ none
    case isFalse => exact step_rest rfl
  | reschedule name change scripts => exact step_rest (outline_modifyRunner name change _)

end World

end Cluster

end EntityCache
