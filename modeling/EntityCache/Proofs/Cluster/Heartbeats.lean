import EntityCache.Proofs.Cluster.Exclusion
import EntityCache.Proofs.Config.Validation
import Mathlib.Data.List.Permutation

/-!
# Heartbeats keep a lock

A flight whose heartbeats are made at their moments holds its lock until it releases it, whatever
others ask of the lock service in the meantime, as long as the time between two heartbeats is
shorter than the lifetime of the lock.  `Outline.Secure` is the invariant: the lock is recorded with
the expiry of its last acquisition or heartbeat, no heartbeat of it has failed, and the next one is
due an interval after the last.  It is about one flight, so that it holds on any nodes, and whether
or not other flights are abandoned.

`KeepsLocks` says of settings that no run with heartbeats in time takes a lock from its flight.
These are the settings with a short enough interval (`keepsLocks_iff_lt`), and of the accepted ones
all but those whose locks live for one millisecond (`keepsLocks_iff`).
-/

namespace EntityCache

namespace Cluster

open Firing Function

open Lock (Backing Faulty Lease)

/-! ## One flight and its lock -/

/-- No heartbeat of a lock has failed, and the next one is due an interval after the last, or after
the acquisition. -/
structure HeldLock.Regular (interval : Nat) (held : HeldLock) : Prop where
  lost : held.lost = false
  nextBeat : held.nextBeat = some (held.renewed + interval)

namespace Outline

variable {a : Act} {c c' : Outline} {id other : Nat} {f f' : Flight} {held : HeldLock}

/-- The lock of a flight, if it has one, is recorded, and its heartbeats are regular. -/
structure Secure (id : Nat) (c : Outline) : Prop where
  sound : c.locks.backing.Sound
  beats : c.locks.onHeartbeat = []
  kept : ∀ f held, c.flights id = some f → f.lock = some held →
    c.Kept f held ∧ held.Regular (c.settings f.node).heartbeatInterval

/-- The lease of a flight's lock has not expired. -/
def InForce (id : Nat) (c : Outline) : Prop :=
  ∀ f held, c.flights id = some f → f.lock = some held → c.now < c.expiry f held

/-- The heartbeat of a flight is not overdue. -/
def Timely (id : Nat) (c : Outline) : Prop :=
  ∀ f held due, c.flights id = some f → f.lock = some held → held.nextBeat = some due → c.now ≤ due

/-- A request is not about a flight's lock, or another owner makes it. -/
def Foreign (id : Nat) (r : Lock.Request) (c : Outline) : Prop :=
  ∀ f held, c.flights id = some f → f.lock = some held → r.key = held.key → r.owner ≠ held.owner

/-- Settings, locks and the flight itself are all that it depends on. -/
theorem Secure.congr (h : c.Secure id)
    (hsame : c'.settings = c.settings ∧ c'.locks = c.locks ∧ c'.flights id = c.flights id) :
    c'.Secure id := by
  obtain ⟨hsettings, hlocks, hflight⟩ := hsame
  have halike : Backing.Alike c.locks.backing c'.locks.backing := by
    rw [hlocks]
    exact .refl h.sound
  refine ⟨halike.sound, hlocks ▸ h.beats, fun f held hf hheld => ?_⟩
  obtain ⟨hkept, hregular⟩ := h.kept f held (hflight ▸ hf) hheld
  exact ⟨hkept.of_lookup hsettings halike (by rw [hlocks]) ⟨rfl, rfl⟩, hsettings ▸ hregular⟩

/-- A request of another owner is answered by a lock service that spares the leases in force of all
others. -/
theorem Secure.of_foreign (h : c.Secure id) (hforce : c.InForce id) {r : Lock.Request}
    (hforeign : c.Foreign id r) {locks : Faulty} (hbeats : locks.onHeartbeat = [])
    (halike : Backing.Alike c.locks.backing locks.backing)
    (hspared : ∀ key lease, c.locks.backing.IsOpen → c.locks.backing.lookup key = some lease →
      c.now < lease.expires → (r.key = key → r.owner ≠ lease.owner) →
        locks.backing.lookup key = some lease) :
    ({ c with locks } : Outline).Secure id := by
  refine ⟨halike.sound, hbeats, fun f held hf hheld => ?_⟩
  obtain ⟨hkept, hregular⟩ := h.kept f held hf hheld
  have hlease := hspared held.key _ hkept.isOpen hkept.recorded (hforce f held hf hheld)
    (hforeign f held hf hheld)
  exact ⟨hkept.of_lookup rfl halike (hlease.trans hkept.recorded.symm) ⟨rfl, rfl⟩, hregular⟩

/-- Requests of others leave a lock in force as it is. -/
theorem Secure.ask (h : c.Secure id) (hforce : c.InForce id) {r : Lock.Request}
    (hforeign : c.Foreign id r) : (c.ask r).Secure id :=
  h.of_foreign hforce hforeign (Faulty.onHeartbeat_serve h.beats c.now r)
    (Faulty.alike_serve h.sound c.now r) fun _ _ hopen hrecorded hlive hother =>
      Faulty.lookup_serve_of_foreign h.sound hopen hrecorded hlive hother

/-- Another flight is put in its place. -/
theorem Secure.put_of_ne (h : c.Secure id) (hother : other ≠ id) (g : Option Flight) :
    (c.put other g).Secure id :=
  h.congr ⟨rfl, rfl, update_of_ne (Ne.symm hother) _ _⟩

/-- The flight is put in its place with a lock that is recorded, or without one. -/
theorem secure_put (hsound : c.locks.backing.Sound) (hbeats : c.locks.onHeartbeat = [])
    (hkept : ∀ held, f.lock = some held →
      c.Kept f held ∧ held.Regular (c.settings f.node).heartbeatInterval) :
    (c.put id (some f)).Secure id := by
  refine ⟨hsound, hbeats, fun g held hg hheld => ?_⟩
  obtain rfl : f = g := by simpa [Outline.put] using hg
  obtain ⟨hrecorded, hregular⟩ := hkept held hheld
  exact ⟨⟨hrecorded.key, hrecorded.isOpen, hrecorded.recorded⟩, hregular⟩

/-- Any flight is put in its place without a lock, or taken away. -/
theorem Secure.put (h : c.Secure id) {g : Option Flight}
    (hg : ∀ f, g = some f → f.lock = none) : (c.put other g).Secure id := by
  by_cases hother : other = id
  · refine ⟨h.sound, h.beats, fun f held hf hheld => ?_⟩
    have hput : g = some f := by simpa [Outline.put, hother] using hf
    simp [hg f hput] at hheld
  · exact h.put_of_ne hother g

/-- The flight goes on with its lock, if it has one. -/
theorem Secure.keep (h : c.Secure id) (hflies : c.flights id = some f)
    (hrest : c'.settings = c.settings ∧ c'.locks = c.locks ∧ c'.flights id = c.flights id)
    (hsame : f'.agent = f.agent ∧ f'.node = f.node) (hlock : f'.lock = f.lock) :
    (c'.put id (some f')).Secure id := by
  have hc' := h.congr hrest
  apply secure_put hc'.sound hc'.beats
  intro held hheld
  obtain ⟨hkept, hregular⟩ := hc'.kept f held (hrest.2.2.trans hflies) (hlock ▸ hheld)
  exact ⟨hkept.of_lookup rfl (.refl hc'.sound) rfl hsame, hsame.2 ▸ hregular⟩

/-- The flight asks for its lock. -/
theorem Secure.acquire (h : c.Secure id) (hflies : c.flights id = some f) {owner : String}
    {reply : Except StoreError Bool}
    (hreply : reply = (c.locks.serve c.now (c.acquire f owner)).1)
    (hgranted : reply = .ok true → f'.lock = some (c.granted f owner))
    (hrefused : reply ≠ .ok true → f'.lock = f.lock)
    (hsame : f'.agent = f.agent ∧ f'.node = f.node) :
    ((c.ask (c.acquire f owner)).put id (some f')).Secure id := by
  have hacquired := Faulty.serve_acquire h.sound c.now (c.settings f.node).lockLifetime
    (c.lockKey f) owner
  apply secure_put hacquired.sound (Faulty.onHeartbeat_serve h.beats c.now _)
  intro held hheld
  -- granted, the lock is the new one; refused, it is the one from before
  by_cases htrue : reply = .ok true
  · obtain rfl : c.granted f owner = held := Option.some.inj ((hgranted htrue).symm.trans hheld)
    refine ⟨.of_granted h.sound (hreply.symm.trans htrue) hsame, rfl, ?_⟩
    rw [hsame.2]
    rfl
  · -- a request that is refused changes no lease
    obtain ⟨hkept, hregular⟩ := h.kept f held hflies (hrefused htrue ▸ hheld)
    refine ⟨hkept.of_lookup rfl hacquired.toAlike ?_ hsame, hsame.2 ▸ hregular⟩
    by_cases hkey : held.key = c.lockKey f
    · rw [hkey]
      exact hacquired.refused (hreply ▸ htrue)
    · exact hacquired.other held.key hkey

/-- A heartbeat at its moment extends the lock. -/
theorem Secure.beat (h : c.Secure id) (hforce : c.InForce id) (hflies : c.flights id = some f)
    (hholds : f.lock = some held) {reply : Except StoreError Bool}
    (hanswered : (c.locks.serve c.now (c.heartbeat f held)).1 = reply) :
    ((c.ask (c.heartbeat f held)).put id (some { f with
      lock := some (held.beaten c.now c.now (c.settings f.node).heartbeatInterval reply) })).Secure
        id := by
  obtain ⟨hkept, hregular⟩ := h.kept f held hflies hholds
  have htrue := hkept.answer h.sound h.beats (hforce f held hflies hholds)
  obtain rfl : .ok true = reply := htrue.symm.trans hanswered
  apply secure_put (Faulty.alike_serve h.sound c.now _).sound
    (Faulty.onHeartbeat_serve h.beats c.now _)
  intro held' hheld'
  obtain rfl := Option.some.inj hheld'
  exact ⟨hkept.beaten h.sound htrue ⟨rfl, rfl⟩, hregular.lost, rfl⟩

/-- A request of the flight itself is answered. -/
theorem Secure.resume (h : c.Secure id) (hflies : c.flights id = some f) {r : Request}
    {reply : r.Reply} (program : Steps Ended) (hserved : Served id f c r reply f' c') :
    (c'.put id (some { f' with program })).Secure id := by
  have hsame := hserved.same
  have hkeep (hnone : c.asked f r = none) :
      (c'.put id (some { f' with program })).Secure id := by
    obtain ⟨-, hsettings, -, hflights, -, -⟩ := hserved.frame
    obtain ⟨hlocks, hlock⟩ := hserved.unasked hnone
    exact h.keep hflies ⟨hsettings, hlocks, congrFun hflights id⟩ hsame hlock
  -- only the requests for the lock and its release reach the service
  cases r with
  | acquire =>
    obtain ⟨hreply, rfl, hgranted, hrefused⟩ := hserved
    exact h.acquire hflies hreply (fun htrue => by rw [hgranted htrue])
      (fun hfalse => by rw [hrefused hfalse]) hsame
  | release =>
    obtain ⟨rfl, rfl⟩ := hserved
    apply secure_put (Faulty.alike_serve h.sound c.now _).sound
      (Faulty.onHeartbeat_serve h.beats c.now _)
    intro held hheld
    simp at hheld
  | resolve | enter | leave | call | guarded => exact hkeep rfl

/-- A request of another flight is answered. -/
theorem Secure.served (h : c.Secure id) (hforce : c.InForce id) {r : Request} {reply : r.Reply}
    (hforeign : ∀ q, c.asked f r = some q → c.Foreign id q)
    (hserved : Served other f c r reply f' c') : c'.Secure id := by
  obtain ⟨-, hsettings, -, hflights, -, -⟩ := hserved.frame
  rcases hserved.locks with heq | ⟨q, hq, heq⟩
  · exact h.congr ⟨hsettings, heq, congrFun hflights id⟩
  · exact (h.ask hforce (hforeign q hq)).congr ⟨hsettings, heq, congrFun hflights id⟩

/-- The lock of a flight stays recorded, whatever is done while it is in force and its heartbeat is
not overdue. -/
theorem Secure.step (h : c.Secure id) (hforce : c.InForce id) (htimely : c.Timely id)
    (hforeign : a ≠ .move (.resume id) → a ≠ .move (.beat id) →
      ∀ r, c.request? a = some r → c.Foreign id r) (hstep : Step a c c') : c'.Secure id := by
  -- the flight's own step or heartbeat, or a step of others that leaves a lock in force alone
  cases hstep with
  | rest => exact h.congr ⟨rfl, rfl, rfl⟩
  | @launch _ _ name agent _ job task =>
    have hput : (c.put c.nextFlight (some
        { agent, job, node := some name, task, program := c.firing agent name })).Secure id := by
      apply h.put
      rintro f ⟨⟩
      rfl
    exact hput.congr ⟨rfl, rfl, rfl⟩
  | land => exact h.put (by simp)
  | @resume _ c' other f f' r next reply flies asks served =>
    by_cases hother : other = id
    · subst hother
      exact h.resume flies _ served
    · apply Secure.put_of_ne _ hother
      apply h.served hforce _ served
      intro q hq
      exact hforeign (by simp [hother]) (by simp) q (by simp [request?, flies, asks, hq])
  | @beat _ other f held due reply flies holds beats reached answered =>
    by_cases hother : other = id
    · subst hother
      obtain rfl : due = c.now := Nat.le_antisymm reached (htimely f held due flies holds beats)
      exact h.beat hforce flies holds answered
    · apply (h.ask hforce _).put_of_ne hother
      exact hforeign (by simp) (by simp [hother]) _
        (by simp [request?, flies, holds, beats, reached])
  | release left =>
    have hasked := hforeign (by simp) (by simp) _ (by simp [request?, left]; rfl)
    exact (h.ask hforce hasked).congr ⟨rfl, rfl, rfl⟩
  | @abandon _ other f =>
    have hleft : (c.amend f.node (Post.leave other f)).Secure id := h.congr ⟨rfl, rfl, rfl⟩
    have hgone : ((c.amend f.node (Post.leave other f)).put other none).Secure id :=
      hleft.put (by simp)
    exact hgone.congr ⟨rfl, rfl, rfl⟩

end Outline

/-! ## Runs -/

/-- Something that happens in a fleet, or outside of it at its lock service. -/
inductive Occurrence where
  | act (a : Act)
  /-- A request that no flight makes. -/
  | outside (r : Lock.Request)

namespace World

/-- The world after something has happened. -/
def occur (w : World) : Occurrence → World
  | .act a => w.act a
  | .outside r => (Fleet.act { world := w } (.lock r)).2.world

/-- The worlds on the way of a run, the first and the last one included. -/
def trace : List Occurrence → World → List World
  | [], w => [w]
  | o :: run, w => w :: trace run (w.occur o)

/-- What happens in a run, each with the world that it happens to. -/
def happenings (run : List Occurrence) (w : World) : List (Occurrence × World) :=
  run.zip (w.trace run)

/-- The heartbeat of a flight is not overdue, and a database can still record moments to come. -/
def OnTime (id : Nat) (w : World) : Prop :=
  (∀ f ∈ w.flights[id]?, ∀ held ∈ f.lock, ∀ due ∈ held.nextBeat, w.now ≤ due) ∧
    w.locks.backing.InRange w.now

instance (id : Nat) (w : World) : Decidable (w.OnTime id) :=
  inferInstanceAs (Decidable (_ ∧ _))

/-- The lock of a flight, if it has one, is its own: a heartbeat of it would be answered with
`true`, no other owner would be granted it, and no call of the flight would be given up. -/
structure KeepsLock (id : Nat) (w : World) : Prop where
  extended : ∀ f held, w.flights[id]? = some f → f.lock = some held →
    (w.locks.serve w.now
      (.heartbeat held.key held.owner (w.settings f.node).lockLifetime)).1 = .ok true
  exclusive : ∀ f held owner lifetime, w.flights[id]? = some f → f.lock = some held →
    owner ≠ held.owner →
      (w.locks.serve w.now (.acquire (w.lockKey f) owner lifetime)).1 ≠ .ok true ∧
        (w.locks.backing.serve w.now (.acquire (w.lockKey f) owner lifetime)).1 ≠ .ok true
  guarded : ∀ f r reply w', w.flights[id]? = some f →
    w.serve id f (.guarded r) = some (reply, w') → reply.isSome = true

end World

namespace Occurrence

/-- What is asked of the lock service, if anything is. -/
def request? (w : World) : Occurrence → Option Lock.Request
  | act a => w.outline.request? a
  | outside r => some r

/-- It is the flight of a number that goes on, or makes its heartbeat. -/
def isOf (id : Nat) : Occurrence → Bool
  | act (.move (.resume other)) => other == id
  | act (.move (.beat other)) => other == id
  | _ => false

/-- Unless the flight itself does something, nothing is asked in the name of its lock's owner about
its lock. -/
def Foreign (id : Nat) (o : Occurrence) (w : World) : Prop :=
  o.isOf id = true ∨ ∀ f ∈ w.flights[id]?, ∀ held ∈ f.lock, ∀ r ∈ o.request? w,
    r.key = held.key → r.owner ≠ held.owner

instance (id : Nat) (o : Occurrence) (w : World) : Decidable (o.Foreign id w) :=
  inferInstanceAs (Decidable (_ ∨ _))

/-- The acts of a flight are its own steps and its heartbeats. -/
theorem eq_of_isOf {id : Nat} {a : Act} (h : (act a).isOf id = true) :
    a = .move (.resume id) ∨ a = .move (.beat id) := by
  rw [isOf.eq_def] at h
  split at h <;> simp_all

end Occurrence

namespace World

variable {id : Nat} {w : World} {run : List Occurrence}

/-- Requests from outside reach the service and nothing else. -/
theorem occur_outside (r : Lock.Request) (w : World) :
    w.occur (.outside r) =
      { w with locks := { w.locks with backing := (w.locks.backing.serve w.now r).2 } } := by
  simp only [occur, Fleet.act]
  split <;> rfl

/-- A lock is in force while its heartbeat is not overdue, if the heartbeats are close enough. -/
theorem OnTime.inForce (h : w.OnTime id) (hsecure : w.outline.Secure id)
    (hlt : ∀ f, w.flights[id]? = some f →
      (w.settings f.node).heartbeatInterval < (w.settings f.node).lockLifetime) :
    w.outline.InForce id := by
  intro f held hf hheld
  obtain ⟨-, hregular⟩ := hsecure.kept f held hf hheld
  apply Backing.lt_expiry h.2
  have hnow : w.now ≤ held.renewed + (w.settings f.node).heartbeatInterval :=
    h.1 f hf held hheld _ hregular.nextBeat
  exact Nat.lt_of_le_of_lt hnow (Nat.add_lt_add_left (hlt f hf) _)

/-- A lock that is recorded and in force is the flight's own. -/
theorem keepsLock_of_secure (h : w.outline.Secure id) (hforce : w.outline.InForce id) :
    w.KeepsLock id := by
  -- a lock in force is extended, is refused to others, and guards its own flight
  refine ⟨?extended, ?exclusive, ?guarded⟩
  case extended =>
    intro f held hf hheld
    obtain ⟨hkept, -⟩ := h.kept f held hf hheld
    exact hkept.answer h.sound h.beats (hforce f held hf hheld)
  case exclusive =>
    intro f held owner lifetime hf hheld hother
    obtain ⟨hkept, -⟩ := h.kept f held hf hheld
    have hrecorded := hkept.recorded
    rw [hkept.key] at hrecorded
    have hlive := hforce f held hf hheld
    exact ⟨(Faulty.serve_acquire h.sound w.now lifetime _ owner).ne_of_force hrecorded hlive hother,
      (Backing.serve_acquire h.sound w.now lifetime _ owner).ne_of_force hrecorded hlive hother⟩
  case guarded =>
    intro f r reply w' hf hserve
    have hlost : f.lock.any (·.lost) = false := by
      cases hheld : f.lock with
      | none => rfl
      | some held => exact (h.kept f held hf hheld).2.lost
    rw [serve, if_neg (by simp [hlost])] at hserve
    obtain ⟨answer, -, heq⟩ := Option.map_eq_some_iff.1 hserve
    obtain ⟨rfl, -⟩ := Prod.mk.inj heq
    rfl

/-- A run in two parts passes through the states of both. -/
theorem mem_trace_append {run' : List Occurrence} {w' : World} :
    w' ∈ w.trace (run ++ run') ↔ w' ∈ w.trace run ∨ w' ∈ (run.foldl occur w).trace run' := by
  induction run generalizing w with
  | nil => cases run' <;> simp [trace]
  | cons o run ih => simp [trace, ih, or_assoc]

/-- The lock of a flight stays recorded while others do not use its owner's name. -/
theorem secure_occur (h : w.outline.Secure id) (hforce : w.outline.InForce id)
    (hontime : w.OnTime id) {o : Occurrence} (hforeign : o.Foreign id w) :
    (w.occur o).outline.Secure id := by
  cases o with
  | act a =>
    have htimely : w.outline.Timely id := fun f held due hf hheld hdue =>
      hontime.1 f hf held hheld due hdue
    apply h.step hforce htimely _ (step_act a w)
    intro hresume hbeat r hr f held hf hheld
    -- an act of the flight itself makes no foreign request
    rcases hforeign with hown | hforeign
    · rcases Occurrence.eq_of_isOf hown with rfl | rfl
      · exact absurd rfl hresume
      · exact absurd rfl hbeat
    · exact hforeign f hf held hheld r hr
  | outside r =>
    have hr : w.outline.Foreign id r := by
      intro f held hf hheld
      rcases hforeign with hown | hforeign
      · simp [Occurrence.isOf] at hown
      · exact hforeign f hf held hheld r rfl
    rw [occur_outside]
    exact h.of_foreign hforce hr h.beats (Backing.alike_serve h.sound w.now r)
      fun _ _ hopen hrecorded hlive hother =>
        Backing.lookup_serve_of_foreign h.sound hopen hrecorded hlive hother

/-- In a run in which only the flight itself asks for anything, nothing is asked in its owner's name
by others. -/
theorem foreign_of_silent (hsilent : ∀ o ∈ run, o.isOf id = true ∨ ∀ w, o.request? w = none) :
    ∀ o ∈ w.happenings run, o.1.Foreign id o.2 := by
  intro o ho
  rcases hsilent o.1 (List.of_mem_zip ho).1 with hown | hnone
  · exact .inl hown
  · exact .inr fun _ _ _ _ r hr => by simp [hnone] at hr

/-- A lock with time to spare is in force in every state of a run in which its heartbeats come on
time. -/
theorem keepsLock_trace (h : w.outline.Secure id)
    (hlt : ∀ w' ∈ w.trace run, ∀ f, w'.flights[id]? = some f →
      (w'.settings f.node).heartbeatInterval < (w'.settings f.node).lockLifetime)
    (hontime : ∀ w' ∈ w.trace run, w'.OnTime id)
    (hforeign : ∀ o ∈ w.happenings run, o.1.Foreign id o.2) :
    ∀ w' ∈ w.trace run, w'.KeepsLock id := by
  -- the lock is in force before each occurrence, so it is secure after it
  induction run generalizing w with
  | nil =>
    intro w' hw'
    obtain rfl := List.mem_singleton.1 hw'
    exact keepsLock_of_secure h ((hontime w' hw').inForce h (hlt w' hw'))
  | cons o run ih =>
    have hnow := hontime w List.mem_cons_self
    have hforce := hnow.inForce h (hlt w List.mem_cons_self)
    have hrest := ih (secure_occur h hforce hnow (hforeign (o, w) List.mem_cons_self))
      (fun w' hw' => hlt w' (List.mem_cons_of_mem _ hw'))
      (fun w' hw' => hontime w' (List.mem_cons_of_mem _ hw'))
      fun p hp => hforeign p (List.mem_cons_of_mem _ hp)
    intro w' hw'
    rcases List.mem_cons.1 hw' with rfl | hw'
    · exact keepsLock_of_secure h hforce
    · exact hrest w' hw'

end World

/-! ## Which settings are good enough -/

/-- A flight of a new fleet whose node has these settings keeps its lock throughout every run in
which its heartbeats are made at their moments, whatever is asked of the lock service in the names
of other owners.  Heartbeats are not kept from the service, and a table of locks has a row for each
name. -/
def KeepsLocks (settings : ClusterSettings) : Prop :=
  ∀ (plans : List NodePlan) (locks : Faulty) (fleet : Fleet) (run : List Occurrence) (id : Nat),
    Fleet.new? plans locks = some fleet → locks.backing.Sound → locks.onHeartbeat = [] →
    (∀ w ∈ fleet.world.trace run, ∀ f ∈ w.flights[id]?, w.settings f.node = settings) →
    (∀ w ∈ fleet.world.trace run, w.OnTime id) →
    (∀ o ∈ fleet.world.happenings run, o.1.Foreign id o.2) →
    ∀ w ∈ fleet.world.trace run, w.KeepsLock id

/-- No flight of a new fleet has a lock, as there is none. -/
theorem Fleet.secure_new {plans : List NodePlan} {locks : Faulty} {fleet : Fleet}
    (hnew : new? plans locks = some fleet) (hsound : locks.backing.Sound)
    (hbeats : locks.onHeartbeat = []) (id : Nat) : fleet.world.outline.Secure id := by
  obtain ⟨nodes, -, rfl⟩ := Option.map_eq_some_iff.1 hnew
  exact ⟨hsound, hbeats, fun f held hf => by simp [World.outline] at hf⟩

/-- A heartbeat that comes before the lock expires keeps it. -/
theorem keepsLocks_of_lt {settings : ClusterSettings}
    (h : settings.heartbeatInterval < settings.lockLifetime) : KeepsLocks settings := by
  intro plans locks fleet run id hnew hsound hbeats hsettings
  refine World.keepsLock_trace (Fleet.secure_new hnew hsound hbeats id) fun w hw f hf => ?_
  rw [hsettings w hw f hf]
  exact h

/-! ### Heartbeats that come too late -/

/-- A lock is granted to a flight. -/
theorem World.outline_resume_acquire {w : World} {id : Nat} {f : Flight} {owner : String}
    {next : Except StoreError Bool → Steps Ended} (hflies : w.flights[id]? = some f)
    (hasks : f.program = .ask (.acquire owner) next)
    (hgranted : (w.locks.serve w.now (w.outline.acquire f owner)).1 = .ok true) :
    (w.resume id).outline = (w.outline.ask (w.outline.acquire f owner)).put id
      (some { f with
        lock := some (w.outline.granted f owner), program := next (.ok true) }) := by
  have hreply : (w.askLock f.agent (.acquire (w.lockKey f) owner
      (w.settings f.node).lockLifetime)).1 = .ok true := hgranted
  -- the request is served and granted, so the flight goes on with its lock
  obtain ⟨w', hserve⟩ : ∃ w', w.serve id f (.acquire owner) = some (.ok true, w') := by
    simp only [serve, hreply]
    exact ⟨_, rfl⟩
  obtain ⟨f', c', ⟨-, rfl, hlocked, -⟩, hw'⟩ := outline_serve hflies hserve
  rw [hlocked rfl] at hw'
  have hflies' : w'.flights[id]? = some { f with lock := some (w.outline.granted f owner) } := by
    show w'.outline.flights id = _
    simp [hw', Outline.put]
  rw [resume, hflies]
  simp only [hasks, hserve]
  rw [outline_modifyFlight hflies', hw', Outline.put_put]

/-- A request for a lock that is granted is made by a flight of some node. -/
theorem World.node_resume_acquire {w : World} {id : Nat} {f g : Flight} {owner : String}
    {next : Except StoreError Bool → Steps Ended} (hflies : w.flights[id]? = some f)
    (hasks : f.program = .ask (.acquire owner) next)
    (hgranted : (w.locks.serve w.now (w.outline.acquire f owner)).1 = .ok true)
    (hg : (w.resume id).flights[id]? = some g) : g.node = f.node := by
  have hput : (w.resume id).outline.flights id = some g := hg
  rw [outline_resume_acquire hflies hasks hgranted, Outline.put] at hput
  obtain rfl := Option.some.inj ((update_self id _ _).symm.trans hput)
  rfl

/-- A lock that has expired is not the flight's own any more. -/
theorem World.not_keepsLock_of_expired {w : World} {c : Outline} {id : Nat} {f : Flight}
    {held : HeldLock} (hw : w.outline = c) (hsound : c.locks.backing.Sound)
    (hbeats : c.locks.onHeartbeat = []) (hflies : c.flights id = some f)
    (hholds : f.lock = some held) (hkept : c.Kept f held) (hexpired : c.expiry f held ≤ c.now) :
    ¬w.KeepsLock id := by
  subst hw
  intro hkeeps
  have hextended := Faulty.serve_heartbeat hsound hbeats w.now (w.settings f.node).lockLifetime
    held.key held.owner
  obtain ⟨lease, hlease, -, hlive⟩ :=
    (hextended.answer hkept.isOpen).1 (hkeeps.extended f held hflies hholds)
  obtain rfl := Option.some.inj (hkept.recorded.symm.trans hlease)
  exact absurd hlive (Nat.not_lt.2 hexpired)

/-- A flight is on time while its next heartbeat is not over. -/
theorem World.onTime_of_le {w : World} {c : Outline} {id : Nat} {f : Flight} {held : HeldLock}
    {due : Nat} (hw : w.outline = c) (hflies : c.flights id = some f) (hholds : f.lock = some held)
    (hdue : held.nextBeat = some due) (hnow : c.now ≤ due)
    (hrange : c.locks.backing.InRange c.now) : w.OnTime id := by
  subst hw
  refine ⟨?_, hrange⟩
  rintro g hg held' hheld' due' hdue'
  obtain rfl := Option.some.inj (hflies.symm.trans hg)
  obtain rfl := Option.some.inj (hholds.symm.trans hheld')
  obtain rfl := Option.some.inj (hdue.symm.trans hdue')
  exact hnow

/-- A lock is granted whose first heartbeat comes too late, although it is made at its moment. -/
theorem World.not_keepsLock_late {w : World} {id : Nat} {f : Flight} {owner : String}
    {next : Except StoreError Bool → Steps Ended} (hsound : w.locks.backing.Sound)
    (hbeats : w.locks.onHeartbeat = []) (hflies : w.flights[id]? = some f)
    (hasks : f.program = .ask (.acquire owner) next)
    (hgranted : (w.locks.serve w.now (w.outline.acquire f owner)).1 = .ok true)
    (hrange : ∀ now, (w.outline.ask (w.outline.acquire f owner)).locks.backing.InRange now)
    (h : (w.settings f.node).lockLifetime ≤ (w.settings f.node).heartbeatInterval) :
    (w.resume id).OnTime id ∧
      ((w.resume id).step (.pass (w.settings f.node).heartbeatInterval)).OnTime id ∧
        ¬((w.resume id).step (.pass (w.settings f.node).heartbeatInterval)).KeepsLock id := by
  have hacquired := outline_resume_acquire hflies hasks hgranted
  have hlate : ((w.resume id).step (.pass (w.settings f.node).heartbeatInterval)).outline =
      { (w.resume id).outline with
        now := (w.resume id).outline.now + (w.settings f.node).heartbeatInterval } := rfl
  rw [hacquired] at hlate
  refine ⟨onTime_of_le hacquired (update_self ..) rfl rfl (Nat.le_add_right ..) (hrange _),
    onTime_of_le hlate (update_self ..) rfl rfl (Nat.le_refl _) (hrange _), ?_⟩
  have halike := Faulty.alike_serve hsound w.now (w.outline.acquire f owner)
  have hbeats' := Faulty.onHeartbeat_serve hbeats w.now (w.outline.acquire f owner)
  have hkept : (w.outline.ask (w.outline.acquire f owner)).Kept f (w.outline.granted f owner) :=
    .of_granted hsound hgranted ⟨rfl, rfl⟩
  refine not_keepsLock_of_expired hlate halike.sound hbeats' (update_self ..) rfl
    ⟨hkept.key, hkept.isOpen, hkept.recorded⟩ ?_
  -- the lease ends no later than the moment at which the next heartbeat is due
  calc
    _ = w.locks.backing.expiry w.now (w.settings f.node).lockLifetime := halike.expiry _ _
    _ ≤ w.now + (w.settings f.node).lockLifetime := Backing.expiry_le ..
    _ ≤ w.now + (w.settings f.node).heartbeatInterval := Nat.add_le_add_left h _

/-- The owner for whom a flight asks for its lock next. -/
def Flight.claimant? (f : Flight) : Option String :=
  match f.program with
  | .ask (.acquire owner) _ => some owner
  | _ => none

/-- A claimant is about to ask for its lock. -/
theorem Flight.exists_of_claimant? {f : Flight} {owner : String} (h : f.claimant? = some owner) :
    ∃ next, f.program = .ask (.acquire owner) next := by
  unfold claimant? at h
  split at h
  case h_1 next hasks =>
    obtain rfl := Option.some.inj h
    exact ⟨next, hasks⟩
  case h_2 => simp at h

/-- Two nodes with an address each that share their agents by these settings. -/
def pairPlans (settings : ClusterSettings) : List NodePlan :=
  Fleet.twoNodes.map fun plan => { plan with cluster := settings }

/-- Two nodes that share a lock service in memory. -/
def pair (settings : ClusterSettings) : World where
  nodes := Std.ExtTreeMap.ofList ((Fleet.nodes? (pairPlans settings)).getD [])

/-- The two nodes can be set up with any settings. -/
theorem new?_pair (settings : ClusterSettings) :
    Fleet.new? (pairPlans settings) { backing := .memory ∅ } = some { world := pair settings } :=
  rfl

theorem settings_pair (settings : ClusterSettings) :
    (pair settings).settings (some "a") = settings := by cbv

/-- A run ends on its way. -/
theorem World.foldl_mem_trace (run : List Occurrence) (w : World) :
    run.foldl World.occur w ∈ w.trace run := by
  induction run generalizing w with
  | nil => exact List.mem_singleton.2 rfl
  | cons o run ih => exact List.mem_cons_of_mem _ (ih _)

/-- No occurrence changes how a node shares its agents. -/
theorem World.settings_trace {place : Option String} {w w' : World} {run : List Occurrence}
    (h : w' ∈ w.trace run) : w'.settings place = w.settings place := by
  induction run generalizing w with
  | nil => rw [List.mem_singleton.1 h]
  | cons o run ih =>
    rcases List.mem_cons.1 h with rfl | h
    · rfl
    · rw [ih h]
      cases o with
      | act a => exact congrFun (step_act a w).settings place
      | outside r => rw [occur_outside]; rfl

/-- The first requests of a flight, up to the one for its lock. -/
def approach : List Occurrence :=
  .act (.start "a" "agent" {}) :: List.replicate 8 (.act (.move (.resume 0)))

/-- Before its request for the lock a flight has none. -/
theorem unlocked_approach (settings : ClusterSettings) :
    ∀ w ∈ (pair settings).trace approach, ∀ f ∈ w.flights[0]?,
      f.lock = none ∧ f.node = some "a" := by
  have hall : ((pair settings).trace approach).all
      (fun w => w.flights[0]?.all fun f => f.lock == none && f.node == some "a") = true := by cbv
  intro w hw f hf
  have hflight := List.all_eq_true.1 hall w hw
  rw [show w.flights[0]? = some f from hf] at hflight
  simpa using hflight

/-- Up to the request for its lock a flight has no heartbeat that could be late. -/
theorem onTime_approach (settings : ClusterSettings) :
    ∀ w ∈ (pair settings).trace approach, w.OnTime 0 := by
  have hall : ((pair settings).trace approach).all
      (fun w => w.locks.backing.InRange w.now) = true := by cbv
  intro w hw
  refine ⟨fun f hf held hheld => ?_, by simpa using List.all_eq_true.1 hall w hw⟩
  rw [(unlocked_approach settings w hw f hf).1] at hheld
  cases hheld

/-- Up to its request for the lock a flight gets with any settings, at once. -/
theorem approach_asks (settings : ClusterSettings) :
    ∃ w f next, approach.foldl World.occur (pair settings) = w ∧ w.now = 0 ∧
      w.settings (some "a") = settings ∧ w.locks = { backing := .memory ∅ } ∧
      w.flights[0]? = some f ∧ f.node = some "a" ∧
      f.program = .ask (.acquire "10.0.0.1:1") next := by
  have hclaims : (approach.foldl World.occur (pair settings)).flights[0]?.bind Flight.claimant? =
      some "10.0.0.1:1" := by cbv
  obtain ⟨f, hflies, hclaim⟩ := Option.bind_eq_some_iff.1 hclaims
  obtain ⟨next, hasks⟩ := Flight.exists_of_claimant? hclaim
  -- no time has passed, and nothing has been asked of the lock service
  have hstill : ((approach.foldl World.occur (pair settings)).now,
      (approach.foldl World.occur (pair settings)).locks) = (0, { backing := .memory ∅ }) := by cbv
  obtain ⟨hnow, hlocks⟩ := Prod.mk.inj hstill
  have hmem := World.foldl_mem_trace approach (pair settings)
  have hnode := (unlocked_approach settings _ hmem f hflies).2
  have hsettings := (World.settings_trace hmem).trans (settings_pair settings)
  exact ⟨_, f, next, rfl, hnow, hsettings, hlocks, hflies, hnode, hasks⟩

/-- The flight makes its next request, and then nothing happens for a while. -/
def pause (ms : Nat) : List Occurrence := [.act (.move (.resume 0)), .act (.move (.pass ms))]

/-- On its way to the request for the lock, at it, and after a pause: these are the worlds in which
the flight can be. -/
theorem mem_trace_pause {settings : ClusterSettings} {w w' : World} {ms : Nat}
    (hreached : approach.foldl World.occur (pair settings) = w) :
    w' ∈ (pair settings).trace (approach ++ pause ms) ↔
      w' ∈ (pair settings).trace approach ∨
        w' = w ∨ w' = w.resume 0 ∨ w' = (w.resume 0).step (.pass ms) := by
  rw [World.mem_trace_append, hreached]
  simp [pause, World.trace, World.occur, World.act, World.step]

/-- A service in memory that holds no lease grants the lock, and can record every moment to come. -/
theorem World.granted_of_new {w : World} (hlocks : w.locks = { backing := .memory ∅ }) (f : Flight)
    (owner : String) :
    (w.locks.serve w.now (w.outline.acquire f owner)).1 = .ok true ∧
      ∀ now, (w.outline.ask (w.outline.acquire f owner)).locks.backing.InRange now := by
  have hserved : w.locks.serve w.now (w.outline.acquire f owner) =
      (.ok true, { backing := .memory (Std.ExtTreeMap.insert ∅ (w.lockKey f)
        ⟨owner, w.now + (w.settings f.node).lockLifetime⟩) }) := by
    rw [hlocks]
    rfl
  refine ⟨congrArg Prod.fst hserved, fun now => ?_⟩
  show (w.locks.serve w.now (w.outline.acquire f owner)).2.backing.InRange now
  rw [hserved]
  trivial

/-- Where the time between two heartbeats is no shorter than the lifetime of a lock, a flight can
lose its lock although its heartbeat is made at its moment. -/
theorem not_keepsLocks_of_le {settings : ClusterSettings}
    (h : settings.lockLifetime ≤ settings.heartbeatInterval) : ¬KeepsLocks settings := by
  intro hkeeps
  obtain ⟨w, f, next, hreached, hnow, hsettings, hlocks, hflies, hnode, hasks⟩ :=
    approach_asks settings
  have hshares : w.settings f.node = settings := hnode ▸ hsettings
  obtain ⟨hgranted, hrange⟩ := World.granted_of_new hlocks f "10.0.0.1:1"
  -- the flight is granted its lock, and time passes until the heartbeat is due
  obtain ⟨hfirst, hlast, hlost⟩ := World.not_keepsLock_late (hlocks ▸ trivial) (by rw [hlocks])
    hflies hasks hgranted hrange (by rwa [hshares])
  rw [hshares] at hlast hlost
  have hontime : ∀ w' ∈ (pair settings).trace (approach ++ pause settings.heartbeatInterval),
      w'.OnTime 0 := by
    intro w' hw'
    rcases (mem_trace_pause hreached).1 hw' with hbefore | rfl | rfl | rfl
    · exact onTime_approach settings w' hbefore
    · exact ⟨fun _ _ _ _ _ _ => hnow ▸ Nat.zero_le _, by rw [hlocks]; trivial⟩
    · exact hfirst
    · exact hlast
  have hplaced : ∀ w' ∈ (pair settings).trace (approach ++ pause settings.heartbeatInterval),
      ∀ g ∈ w'.flights[0]?, w'.settings g.node = settings := by
    intro w' hw' g hg
    have hstays : g.node = some "a" := by
      rcases (mem_trace_pause hreached).1 hw' with hbefore | rfl | rfl | rfl
      · exact (unlocked_approach settings w' hbefore g hg).2
      · exact Option.some.inj (hflies.symm.trans hg) ▸ hnode
      · exact (World.node_resume_acquire hflies hasks hgranted hg).trans hnode
      · exact (World.node_resume_acquire hflies hasks hgranted hg).trans hnode
    rw [hstays, World.settings_trace hw']
    exact settings_pair settings
  have hsilent : ∀ o ∈ approach ++ pause settings.heartbeatInterval,
      o.isOf 0 = true ∨ ∀ w, o.request? w = none := by
    simp [approach, pause, Occurrence.isOf, Occurrence.request?, Outline.request?]
  have hlate := (@mem_trace_pause _ _ _ settings.heartbeatInterval hreached).2
    (.inr (.inr (.inr rfl)))
  exact hlost (hkeeps (pairPlans settings) _ _ _ 0 (new?_pair settings) trivial rfl hplaced hontime
    (World.foreign_of_silent hsilent) _ hlate)

/-! ### Accepted settings -/

/-- Exactly where the time between two heartbeats is shorter than the lifetime of a lock, flights do
not lose their locks. -/
theorem keepsLocks_iff_lt (settings : ClusterSettings) :
    KeepsLocks settings ↔ settings.heartbeatInterval < settings.lockLifetime := by
  refine ⟨fun hkeeps => ?_, keepsLocks_of_lt⟩
  by_contra hle
  exact not_keepsLocks_of_le (Nat.not_lt.1 hle) hkeeps

/-- With the settings of a configuration that is accepted, flights do not lose their locks, unless a
lock lives for one millisecond only; then the heartbeat that nobody has set comes at its end. -/
theorem keepsLocks_iff {c : Config} (h : c.validate = .ok ()) :
    KeepsLocks c.cluster ↔ c.cluster.lockLifetime ≠ 1 :=
  (keepsLocks_iff_lt c.cluster).trans (Config.heartbeatInterval_lt_iff h)

/-- A flight gets its lock and extends it twice, while another owner asks for it, extends it and
releases it. -/
def contest : List Occurrence :=
  approach ++ [.act (.move (.resume 0)), .outside (.acquire "agent-lock:agent" "other" 300000),
    .act (.move (.pass 100000)), .outside (.heartbeat "agent-lock:agent" "other" 300000),
    .act (.move (.beat 0)), .act (.move (.pass 100000)), .act (.move (.beat 0)),
    .outside (.release "agent-lock:agent" "other"), .act (.move (.pass 100000)),
    .outside (.acquire "agent-lock:agent" "other" 300000)]

/-- With the default settings a flight takes its lock in this run, and keeps it whatever
another owner tries. -/
theorem keepsLocks_iff_contest :
    (Config.default .one).validate = .ok () ∧
      ((contest.foldl World.occur (pair {})).flights[0]?.bind (·.lock)).isSome = true ∧
        ∀ w ∈ (pair {}).trace contest, w.KeepsLock 0 := by
  have hvalid : (Config.default .one).validate = .ok () := by decide
  have hkeeps := (keepsLocks_iff hvalid).2 (by decide)
  refine ⟨hvalid, by decide +kernel, ?_⟩
  exact hkeeps (pairPlans {}) _ _ contest 0 (new?_pair {}) trivial rfl (by decide +kernel)
    (by decide +kernel) (by decide +kernel)

/-- The shortest lifetime without a period of its own passes the check of the settings, and loses
its lock. -/
theorem not_keepsLocks_shortest : ¬∀ c : Config, c.validate = .ok () → KeepsLocks c.cluster := by
  intro hall
  exact not_keepsLocks_of_le (by decide)
    (hall { Config.default .one with cluster := { lockLifetime := 1 } } (by decide))

end Cluster

end EntityCache
