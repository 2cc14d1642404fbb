import EntityCache.Proofs.Cluster.Course
import EntityCache.Proofs.Firing.Reports
import Mathlib.Data.List.Induction

/-!
# Every cycle of a fleet is reported

A run of a fleet makes the requests of many flights, in any order and with other acts in between.
`World.exchanges` picks out those of one flight, with the answers that it was given.  They are
exchanges of the program that the flight took off with (`Tracked`), so that what holds of every
firing holds of every flight: when it comes to its end, it has been reported exactly once
(`accounted_of_flight`).
-/

namespace EntityCache

namespace Firing

/-- A firing that has ended is accounted for: it has been reported, and if it was granted the lock
and no call was given up, it has made the calls of a firing without locks and ended like it. -/
structure Accounted (agent : String) (xs : List (Exchange Request.Reply)) (ended : Ended) :
    Prop where
  reported : Reported agent xs ended
  plain : (∃ owner, ⟨.acquire owner, .ok true⟩ ∈ xs) → (∀ r, ⟨.guarded r, none⟩ ∉ xs) →
    (plain agent).Takes (answered xs) (.done ended)

/-- Both kinds of firing account for how they end. -/
theorem accounted_of_takes {process agent : String} {firing : Steps Ended}
    {xs : List (Exchange Request.Reply)} {ended : Ended}
    (hfiring : firing = unguarded agent ∨ firing = guarded process agent)
    (htakes : firing.Takes xs (.done ended)) : Accounted agent xs ended := by
  refine ⟨reported_of_takes hfiring htakes, fun hgranted hkept => ?_⟩
  rcases hfiring with rfl | rfl
  · -- a firing without locks asks for none
    obtain ⟨ys, rfl, -⟩ := exists_of_takes_unguarded htakes
    obtain ⟨owner, hgranted⟩ := hgranted
    simp [uninterrupted] at hgranted
  · exact plain_of_takes htakes hgranted hkept

end Firing

namespace Cluster

open Firing Function

/-! ## Exchanges of a flight -/

namespace World

/-- The request that a flight makes in an act, with its answer, if it makes one that is answered. -/
def exchange? (id : Nat) (w : World) : Act → Option (Exchange Request.Reply)
  | .move (.resume other) =>
    if other = id then
      match w.flights[id]? with
      | none => none
      | some flight =>
        match flight.program with
        | .done _ => none
        | .ask r _ => (w.serve id flight r).map fun answer => ⟨r, answer.1⟩
    else none
  | _ => none

/-- The exchanges of a flight in a run. -/
def exchanges (id : Nat) : List Act → World → List (Exchange Request.Reply)
  | [], _ => []
  | a :: acts, w => (w.exchange? id a).toList ++ exchanges id acts (w.act a)

variable {w w' : World} {id : Nat} {f f' : Flight} {a : Act}

/-- One act more at the end of a run. -/
theorem run_concat (acts : List Act) (a : Act) (w : World) :
    w.run (acts ++ [a]) = (w.run acts).act a :=
  run_append acts [a] w

/-- The exchanges of a flight over two runs in turn. -/
theorem exchanges_append (id : Nat) (acts later : List Act) (w : World) :
    w.exchanges id (acts ++ later) = w.exchanges id acts ++ (w.run acts).exchanges id later := by
  induction acts generalizing w with
  | nil => rfl
  | cons a acts ih =>
    rw [List.cons_append, exchanges, exchanges, ih, List.append_assoc]
    rfl

/-- The exchanges of a flight over one act more. -/
theorem exchanges_concat (id : Nat) (acts : List Act) (a : Act) (w : World) :
    w.exchanges id (acts ++ [a]) = w.exchanges id acts ++ ((w.run acts).exchange? id a).toList := by
  rw [exchanges_append]
  simp [exchanges]

/-- A flight makes an exchange only in its own steps. -/
theorem exchange?_of_ne (hne : a ≠ .move (.resume id)) : w.exchange? id a = none := by
  unfold exchange?
  split
  case h_1 other => exact if_neg fun heq => hne (by rw [heq])
  case h_2 => rfl

/-- Without a flight there is no exchange. -/
theorem exchange?_of_not_flies (h : w.flights[id]? = none) (a : Act) :
    w.exchange? id a = none := by
  unfold exchange?
  split
  case h_1 other =>
    rw [h]
    exact ite_self _
  case h_2 => rfl

end World

/-! ## Flights that take off -/

/-- What exchanges make of a flight. -/
structure Flight.Goes (xs : List (Exchange Request.Reply)) (f f' : Flight) : Prop where
  agent : f'.agent = f.agent
  node : f'.node = f.node
  entered : f'.entered = xs.foldl marks f.entered
  locked : f'.lock.isSome = xs.foldl holds f.lock.isSome
  program : f.program.Takes xs f'.program

theorem Flight.Goes.refl (f : Flight) : f.Goes [] f := ⟨rfl, rfl, rfl, rfl, .refl _⟩

namespace Outline

variable {c c' : Outline} {a : Act} {id : Nat} {f f' : Flight}

/-- A firing is guarded by a lock or not, as the node has it. -/
theorem firing_eq (agent name : String) (c : Outline) :
    c.firing agent name = unguarded agent ∨
      c.firing agent name = guarded (c.process name) agent := by
  unfold firing
  split
  · exact .inr rfl
  · exact .inl rfl

/-- Numbers of flights are never given back. -/
theorem Step.nextFlight_le (h : Step a c c') : c.nextFlight ≤ c'.nextFlight := by
  cases h with
  | rest | land | beat | release | abandon => exact Nat.le_refl _
  | launch => exact Nat.le_succ _
  | resume flies asks served =>
    obtain ⟨-, -, -, -, hnext, -⟩ := served.frame
    exact Nat.le_of_eq hnext.symm

/-- What an answer does to a flight's mark and lock. -/
theorem Served.fields {r : Request} {reply : r.Reply} (h : Served id f c r reply f' c') :
    f'.entered = marks f.entered ⟨r, reply⟩ ∧ f'.lock.isSome = holds f.lock.isSome ⟨r, reply⟩ := by
  cases r with
  | resolve q =>
    obtain ⟨name, post, resolver, resolver', -, -, -, -, rfl, -⟩ := h
    exact ⟨rfl, rfl⟩
  | enter => rcases h with ⟨rfl, rfl, -⟩ | ⟨rfl, -, rfl, -⟩ <;> simp [marks, holds]
  | leave => obtain ⟨rfl, -⟩ := h; exact ⟨rfl, rfl⟩
  | acquire owner =>
    obtain ⟨-, -, hgranted, hrefused⟩ := h
    rcases reply with error | _ | _
    · rw [hrefused (by simp)]; exact ⟨rfl, rfl⟩
    · rw [hrefused (by simp)]; simp [marks, holds]
    · rw [hgranted rfl]; simp [marks, holds]
  | release owner => obtain ⟨rfl, -⟩ := h; exact ⟨rfl, rfl⟩
  | call r => obtain ⟨-, execution, rfl, -⟩ := h; exact ⟨rfl, rfl⟩
  | guarded r => obtain ⟨-, execution, rfl, -⟩ := h; exact ⟨rfl, rfl⟩

/-- A flight that does not make a request goes on as it was, or has just taken off. -/
theorem Step.flight (h : Step a c c') (hne : a ≠ .move (.resume id))
    (hflies : c'.flights id = some f') :
    (∃ f, c.flights id = some f ∧ f.Goes [] f') ∨
      (id = c.nextFlight ∧ id < c'.nextFlight ∧ f'.entered = false ∧ f'.lock = none ∧
        ∃ name, f'.program = c.firing f'.agent name) := by
  -- other flights are as they were
  have hother {id' : Nat} {g : Option Flight} (hid : id ≠ id')
      (hput : (c.put id' g).flights id = some f') : ∃ f, c.flights id = some f ∧ f.Goes [] f' :=
    ⟨f', by simpa [Outline.put, hid] using hput, .refl f'⟩
  cases h with
  | rest | release => exact .inl ⟨f', hflies, .refl f'⟩
  | @launch _ _ name agent post job task hpost =>
    by_cases hid : id = c.nextFlight
    · subst hid
      refine .inr ⟨rfl, Nat.lt_succ_self _, ?_⟩
      obtain rfl : _ = f' := Option.some.inj (by simpa [Outline.launch, Outline.put] using hflies)
      exact ⟨rfl, rfl, name, rfl⟩
    · exact .inl (hother hid hflies)
  | @land _ id' _ _ flies done =>
    exact .inl (hother (fun hid => hne (by rw [hid])) hflies)
  | @resume _ _ id' _ _ _ _ _ flies asks served =>
    have hid : id ≠ id' := fun hid => hne (by rw [hid])
    obtain ⟨-, -, -, hflights, -⟩ := served.frame
    exact .inl ⟨f', by simpa [Outline.put, hid, hflights] using hflies, .refl f'⟩
  | @beat _ id' f _ _ _ flies holds beats reached answered =>
    by_cases hid : id = id'
    · subst hid
      obtain rfl : _ = f' := Option.some.inj (by simpa [Outline.put] using hflies)
      exact .inl ⟨f, flies, rfl, rfl, rfl, by simp [holds], .refl _⟩
    · exact .inl (hother hid hflies)
  | @abandon _ id' _ flies =>
    by_cases hid : id = id'
    · subst hid
      simp [Outline.put, Outline.leave] at hflies
    · exact .inl (hother hid hflies)

/-- What has been recorded of every flight are exchanges of the firing that it took off with, up to
what is left of its program. -/
structure Tracked (xs : Nat → List (Exchange Request.Reply)) (c : Outline) : Prop where
  unused : ∀ id, c.nextFlight ≤ id → c.flights id = none ∧ xs id = []
  taken : ∀ id f, c.flights id = some f → ∃ process firing,
    (firing = unguarded f.agent ∨ firing = guarded process f.agent) ∧
      firing.Takes (xs id) f.program

end Outline

namespace World

variable {w : World} {id : Nat} {f : Flight} {xs : Nat → List (Exchange Request.Reply)}

/-- A request that is exchanged is served, and the flight goes on. -/
theorem served_of_exchange? {r : Request} {reply : r.Reply}
    (h : w.exchange? id (.move (.resume id)) = some ⟨r, reply⟩) :
    ∃ f f' c' next, w.flights[id]? = some f ∧ f.program = .ask r next ∧
      Outline.Served id f w.outline r reply f' c' ∧
      (w.resume id).outline = c'.put id (some { f' with program := next reply }) := by
  rw [exchange?, if_pos rfl] at h
  cases hthere : w.flights[id]? with
  | none => simp [hthere] at h
  | some f =>
    cases hprogram : f.program with
    | done ended => simp [hthere, hprogram] at h
    | ask r' next =>
      simp only [hthere, hprogram, Option.map_eq_some_iff] at h
      obtain ⟨answer, hserve, heq⟩ := h
      cases heq
      obtain ⟨f', c', hserved, houtline⟩ := outline_resume hthere hprogram hserve
      exact ⟨f, f', c', next, rfl, hprogram, hserved, houtline⟩

/-- Without an exchange a flight waits, or lands, or is not there. -/
theorem resume_of_no_exchange (h : w.exchange? id (.move (.resume id)) = none) :
    w.resume id = w ∨ ∃ f ended, w.flights[id]? = some f ∧ f.program = .done ended ∧
      (w.resume id).outline = w.outline.put id none := by
  rw [exchange?, if_pos rfl] at h
  cases hthere : w.flights[id]? with
  | none => exact .inl (by simp only [resume, hthere])
  | some f =>
    cases hprogram : f.program with
    | done ended =>
      refine .inr ⟨f, ended, rfl, hprogram, ?_⟩
      have hlands : w.resume id = w.land id f ended := by simp only [resume, hthere, hprogram]
      rw [hlands, outline_land]
    | ask r next =>
      simp only [hthere, hprogram, Option.map_eq_none_iff] at h
      exact .inl (by simp only [resume, hthere, hprogram, h])

/-- The flight whose turn it is makes a request and is given its answer, or waits, or lands. -/
theorem goes_resume {f' : Flight} (hflies : (w.resume id).outline.flights id = some f') :
    ∃ f, w.flights[id]? = some f ∧
      f.Goes (w.exchange? id (.move (.resume id))).toList f' := by
  cases hexchange : w.exchange? id (.move (.resume id)) with
  | none =>
    rcases resume_of_no_exchange hexchange with hrest | ⟨f, ended, -, -, hlands⟩
    · rw [hrest] at hflies
      exact ⟨f', hflies, .refl f'⟩
    · simp [hlands, Outline.put] at hflies
  | some x =>
    obtain ⟨f, g, c', next, hthere, hprogram, hserved, houtline⟩ := served_of_exchange? hexchange
    obtain rfl : _ = f' := Option.some.inj (by simpa [houtline, Outline.put] using hflies)
    refine ⟨f, hthere, hserved.same.1, hserved.same.2, hserved.fields.1, hserved.fields.2, ?_⟩
    rw [hprogram]
    exact .ask (.refl _)

/-- A flight that goes on or takes off has a flight before it, or a new number. -/
theorem flies_of_act (a : Act) {f' : Flight} (hflies : (w.act a).outline.flights id = some f') :
    (∃ f, w.flights[id]? = some f ∧ f.Goes (w.exchange? id a).toList f') ∨
      (id = w.outline.nextFlight ∧ id < (w.act a).outline.nextFlight ∧ f'.entered = false ∧
        f'.lock = none ∧ ∃ name, f'.program = w.outline.firing f'.agent name) := by
  by_cases hturn : a = .move (.resume id)
  · subst hturn
    exact .inl (goes_resume hflies)
  · rw [exchange?_of_ne hturn]
    exact (step_act a w).flight hturn hflies

/-- An act keeps each flight in step with the exchanges that it has made. -/
theorem tracked_act (h : w.outline.Tracked xs) (a : Act) :
    (w.act a).outline.Tracked fun id => xs id ++ (w.exchange? id a).toList := by
  refine ⟨fun id hunused => ?_, fun id f' hflies => ?_⟩
  -- a number that is not used yet has no flight, hence no exchange
  · obtain ⟨hnone, hnil⟩ := h.unused id
      (Nat.le_trans (step_act a w).nextFlight_le hunused)
    refine ⟨?_, by rw [hnil, exchange?_of_not_flies hnone]; rfl⟩
    cases hflies : (w.act a).outline.flights id with
    | none => rfl
    | some f' =>
      rcases flies_of_act a hflies with ⟨f, hthere, -⟩ | ⟨-, hnew, -⟩
      · cases hnone.symm.trans hthere
      · exact absurd hnew (Nat.not_lt_of_le hunused)
  · rcases flies_of_act a hflies with ⟨f, hthere, hgoes⟩ | ⟨hid, -, -, -, name, hfiring⟩
    · obtain ⟨process, firing, hfiring, htaken⟩ := h.taken id f hthere
      exact ⟨process, firing, by rwa [hgoes.agent], htaken.trans hgoes.program⟩
    · obtain ⟨hnone, hnil⟩ := h.unused id (Nat.le_of_eq hid.symm)
      rw [hnil, exchange?_of_not_flies hnone, hfiring]
      exact ⟨_, _, w.outline.firing_eq f'.agent name, .refl _⟩

/-- A run keeps each flight in step with the exchanges that it has made. -/
theorem tracked_run (h : w.outline.Tracked fun _ => []) (acts : List Act) :
    (w.run acts).outline.Tracked fun id => w.exchanges id acts := by
  induction acts using List.reverseRecOn with
  | nil => exact h
  | append_singleton acts a ih =>
    simp only [run_concat, exchanges_concat]
    exact tracked_act ih a

end World

namespace Fleet

variable {plans : List NodePlan} {locks : Lock.Faulty} {fleet : Fleet}

/-- A new fleet has no flights to keep in step. -/
theorem tracked_new (hnew : new? plans locks = some fleet) :
    fleet.world.outline.Tracked fun _ => [] := by
  obtain ⟨nodes, -, rfl⟩ := Option.map_eq_some_iff.1 hnew
  refine ⟨fun id _ => ⟨by simp [World.outline], rfl⟩, fun id f hflies => ?_⟩
  simp [World.outline] at hflies

/-- Whatever happens to a fleet, a flight that comes to its end is accounted for. -/
theorem accounted_of_flight (hnew : new? plans locks = some fleet)
    (acts : List Act) {id : Nat} {f : Flight} {ended : Ended}
    (hflies : (fleet.world.run acts).flights[id]? = some f) (hdone : f.program = .done ended) :
    Accounted f.agent (fleet.world.exchanges id acts) ended := by
  obtain ⟨process, firing, hfiring, htaken⟩ :=
    (World.tracked_run (tracked_new hnew) acts).taken id f hflies
  rw [hdone] at htaken
  exact accounted_of_takes hfiring htaken

/-- A firing is accounted for, with a lock or without, whatever answers its requests; and so is
every flight that comes to its end in a run of a fleet, whatever else happens in between. -/
theorem firing_accounted :
    (∀ {σ : Type} (serve : (r : Request) → σ → r.Reply × σ) (s : σ) (process agent : String)
      (firing : Steps Ended), firing = unguarded agent ∨ firing = guarded process agent →
        Accounted agent (firing.exchanges serve s) (firing.run serve s).1) ∧
    ∀ (plans : List NodePlan) (locks : Lock.Faulty) (fleet : Fleet),
      new? plans locks = some fleet →
        ∀ (acts : List Act) (id : Nat) (f : Flight) (ended : Ended),
          (fleet.world.run acts).flights[id]? = some f → f.program = .done ended →
            Accounted f.agent (fleet.world.exchanges id acts) ended :=
  ⟨fun serve s _ _ _ hfiring => accounted_of_takes hfiring (Program.takes_exchanges serve _ s),
    fun _ _ _ hnew acts _ _ _ hflies hdone => accounted_of_flight hnew acts hflies hdone⟩

/-- The answers of an agent that nothing goes wrong with. -/
def fine : (r : AgentRequest) → r.Reply
  | .started | .finish | .completed | .failed _ => .ok
  | .execute => ()

/-- Surroundings in which nothing goes wrong. -/
def smooth : (r : Request) → r.Reply
  | .resolve .readCache => some ⟨"10.0.0.1:1", true⟩
  | .resolve .endProbe => none
  | .resolve .takeLock | .resolve .startProbe | .resolve (.write _) | .resolve .unlock => ()
  | .enter => true
  | .acquire _ => .ok true
  | .leave | .release _ => ()
  | .call r => fine r
  | .guarded r => some (fine r)

/-- A node with one address. -/
def lonePlan : List NodePlan :=
  [{ name := "a", settings := .default .one, process := "1"
     probes := some [⟨some "10.0.0.1", 0⟩] }]

/-- A flight executes for so long that its heartbeat fails. -/
def lossOfLock : List Act :=
  .start "a" "agent" { runs := [{ sleep := 500000 }] } :: List.replicate 11 (.move (.resume 0)) ++
    .move (.pass 200000) :: .move (.beat 0) :: List.replicate 4 (.move (.resume 0))

/-- A firing in smooth surroundings is accounted for, and so is the flight that loses its lock. -/
theorem firing_accounted_lossOfLock :
    Accounted "agent" ((guarded "1" "agent").exchanges (fun r s => (smooth r, s)) ())
        (.outcome .completed) ∧
      ∃ fleet, new? lonePlan { backing := .memory ∅, onHeartbeat := [.refuse] } = some fleet ∧
        Accounted "agent" (fleet.world.exchanges 0 lossOfLock)
          (.outcome (.failed [(DomainError.lockLost "agent").message])) := by
  have hrun : ((guarded "1" "agent").run (fun r s => (smooth r, s)) ()).1 =
      .outcome .completed := by decide +kernel
  -- in the fleet the heartbeat is refused, so the attempt is broken off
  have hends : ((new? lonePlan { backing := .memory ∅, onHeartbeat := [.refuse] }).bind
      fun fleet => (fleet.world.run lossOfLock).flights[0]?.map fun f =>
        (f.agent, f.program.value?)) =
      some ("agent", some (.outcome (.failed [(DomainError.lockLost "agent").message]))) := by
    decide +kernel
  obtain ⟨fleet, hnew, hflight⟩ := Option.bind_eq_some_iff.1 hends
  refine ⟨?_, fleet, hnew, ?_⟩
  · rw [← hrun]
    exact firing_accounted.1 (fun r s => (smooth r, s)) () "1" "agent" _ (.inr rfl)
  · obtain ⟨f, hflies, hf⟩ := Option.map_eq_some_iff.1 hflight
    obtain ⟨hagent, hvalue⟩ := Prod.mk.inj hf
    have haccounted := firing_accounted.2 _ _ _ hnew _ _ _ _ hflies
      (Program.value?_eq_some.1 hvalue)
    rwa [hagent] at haccounted

end Fleet

end Cluster

end EntityCache
