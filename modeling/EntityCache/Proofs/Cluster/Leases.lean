import EntityCache.Proofs.Cluster.Marks
import EntityCache.Proofs.Lock.Backing

/-!
# Locks of flights are recorded

`Outline.Leased` ties the lock of every flight to the lease that the lock service records for it:
the owner is the flight's, and the lease expires as its acquisition or the last heartbeat that has
extended it has it.  From this, marks and identities that no two nodes share, no two flights hold
the lock of one agent (`Leased.alone`).

An act keeps it as long as the leases of flights are in force (`Outline.Punctual`) and no abandoned
lock is released that a flight holds again by then (`Outline.Spared`).  The lock service may refuse
or fail any request: a heartbeat that fails leaves the lease as it was, and the flight holds its
lock until it gives it up or the lease expires.
-/

namespace EntityCache

namespace Cluster

open Firing Function

open Lock (Backing Faulty Lease)

/-- No two nodes have an owner token in common. -/
def Distinct (own : String → String → Prop) : Prop :=
  ∀ name other value, own name value → own other value → name = other

namespace Outline

variable {own : String → String → Prop} {lockPrefix : String} {a : Act} {c c' : Outline}
  {id i j : Nat} {f f' g : Flight} {held : HeldLock}

/-- The expiry of a flight's lock, by its acquisition or the last heartbeat that has extended it. -/
def expiry (f : Flight) (held : HeldLock) (c : Outline) : Nat :=
  c.locks.backing.expiry held.renewed (c.settings f.node).lockLifetime

/-- The clock has not reached the expiry of any flight's lock. -/
def Punctual (c : Outline) : Prop :=
  ∀ id f held, c.flights id = some f → f.lock = some held → c.now < c.expiry f held

/-- An act releases no abandoned lock that a flight holds as the same owner. -/
def Spared : Act → Outline → Prop
  | .move (.release index), c =>
    ∀ left, c.releases[index]? = some left →
      ∀ id f held, c.flights id = some f → f.lock = some held → held.key = left.key →
        held.owner ≠ left.owner
  | _, _ => True

/-- What the locks of flights rest on: flights keep to the protocol, the marks of nodes are right,
and all nodes name the lock of an agent alike. -/
structure Ordered (own : String → String → Prop) (lockPrefix : String) (c : Outline) : Prop where
  flying : c.Flying own
  marked : c.Marked
  named : ∀ name, (c.nodes name).isSome → (c.settings (some name)).lockPrefix = lockPrefix

/-- A lock is recorded as its flight has it. -/
structure Kept (c : Outline) (f : Flight) (held : HeldLock) : Prop where
  key : held.key = c.lockKey f
  isOpen : c.locks.backing.IsOpen
  recorded : c.locks.backing.lookup held.key = some ⟨held.owner, c.expiry f held⟩

/-- The locks of flights are recorded. -/
structure Leased (c : Outline) : Prop where
  sound : c.locks.backing.Sound
  kept : ∀ id f held, c.flights id = some f → f.lock = some held → c.Kept f held

/-! ## One lock, one flight -/

/-- A flight with a lock has marked its agent on a node, and holds the lock as that node. -/
theorem Flying.holder (h : c.Flying own) (hflies : c.flights id = some f)
    (hholds : f.lock = some held) :
    ∃ name, own name held.owner ∧ c.Entered name f.agent id := by
  obtain ⟨name, phase, hname, -, hat⟩ := h.onCourse id f hflies
  cases phase with
  | outside | inside => simp [hat.2.1] at hholds
  | holding owner executing =>
    obtain ⟨hentered, -, hown, held', hheld', rfl⟩ := hat
    obtain rfl : held' = held := Option.some.inj (hheld'.symm.trans hholds)
    exact ⟨name, hown, f, hflies, hentered, hname, rfl⟩

/-- A flight that executes has a lock. -/
theorem Flying.locked (h : c.Flying own) (hflies : c.flights id = some f)
    (hexecutes : f.execution.isSome) : ∃ held, f.lock = some held := by
  obtain ⟨name, phase, -, -, hat⟩ := h.onCourse id f hflies
  cases phase with
  | outside | inside => simp [hat.2.2] at hexecutes
  | holding owner executing =>
    obtain ⟨-, -, -, held, hheld, -⟩ := hat
    exact ⟨held, hheld⟩

/-- Flights whose nodes name their locks alike have the agents of their locks. -/
theorem agent_of_lockKey (hnamed : (c.settings f.node).lockPrefix = (c.settings g.node).lockPrefix)
    (h : c.lockKey f = c.lockKey g) : f.agent = g.agent := by
  rw [lockKey, lockKey, hnamed] at h
  have hlist := congrArg String.toList h
  rw [String.toList_append, String.toList_append] at hlist
  exact String.toList_injective (List.append_cancel_left hlist)

/-- All flights take their locks under one prefix. -/
theorem Ordered.lockPrefix_eq (h : c.Ordered own lockPrefix) (hflies : c.flights id = some f) :
    (c.settings f.node).lockPrefix = lockPrefix := by
  obtain ⟨name, -, hname, -⟩ := h.flying.onCourse id f hflies
  rw [hname]
  exact h.named name (h.marked.placed id f name hflies hname)

/-- Two flights that hold a lock of one agent as one owner are the same flight. -/
theorem Ordered.alone_of_owner (h : c.Ordered own lockPrefix) (hown : Distinct own)
    {held' : HeldLock} (hf : c.flights i = some f) (hg : c.flights j = some g)
    (hheld : f.lock = some held) (hheld' : g.lock = some held') (hagent : f.agent = g.agent)
    (howner : held.owner = held'.owner) : i = j := by
  obtain ⟨name, hname, hentered⟩ := h.flying.holder hf hheld
  obtain ⟨other, hother, hentered'⟩ := h.flying.holder hg hheld'
  obtain rfl : name = other := hown name other _ hname (howner ▸ hother)
  exact h.marked.alone name f.agent i j hentered (hagent ▸ hentered')

/-- No two flights hold one lock. -/
theorem Leased.alone_of_key (h : c.Leased) (hordered : c.Ordered own lockPrefix)
    (hown : Distinct own) {held' : HeldLock} (hf : c.flights i = some f)
    (hg : c.flights j = some g) (hheld : f.lock = some held) (hheld' : g.lock = some held')
    (hkey : held.key = held'.key) : i = j := by
  have hkept := h.kept i f held hf hheld
  have hkept' := h.kept j g held' hg hheld'
  have hlease := hkept.recorded
  -- the two leases are recorded under the same name, so they have the same owner
  rw [hkey, hkept'.recorded] at hlease
  have howner : held.owner = held'.owner := by
    simp only [Option.some.injEq, Lease.mk.injEq] at hlease
    exact hlease.1.symm
  have hprefix := (hordered.lockPrefix_eq hf).trans (hordered.lockPrefix_eq hg).symm
  have hagent := agent_of_lockKey hprefix (hkept.key.symm.trans (hkey.trans hkept'.key))
  exact hordered.alone_of_owner hown hf hg hheld hheld' hagent howner

/-- No two flights hold the lock of one agent. -/
theorem Leased.alone (h : c.Leased) (hordered : c.Ordered own lockPrefix) (hown : Distinct own)
    {held' : HeldLock} (hf : c.flights i = some f) (hg : c.flights j = some g)
    (hheld : f.lock = some held) (hheld' : g.lock = some held') (hagent : f.agent = g.agent) :
    i = j := by
  apply h.alone_of_key hordered hown hf hg hheld hheld'
  rw [(h.kept i f held hf hheld).key, (h.kept j g held' hg hheld').key, lockKey, lockKey,
    hordered.lockPrefix_eq hf, hordered.lockPrefix_eq hg, hagent]

/-! ## Every act -/

/-- A change to a node takes no node away. -/
theorem isSome_nodes_amend (place : Option String) (g : Post → Post) (c : Outline)
    (name : String) : ((c.amend place g).nodes name).isSome = (c.nodes name).isSome := by
  simpa using congrArg Option.isSome (map_nodes_amend (c := c) place g (fun post => post) name)

/-- No answer makes a node or takes one away. -/
theorem Served.isSome_nodes {r : Request} {reply : r.Reply} (h : Served id f c r reply f' c')
    (name : String) : (c'.nodes name).isSome = (c.nodes name).isSome := by
  cases r with
  | resolve q =>
    obtain ⟨_, _, _, resolver', -, -, -, -, -, rfl⟩ := h
    exact isSome_nodes_amend _ _ _ _
  | enter =>
    rcases h with ⟨-, -, rfl⟩ | ⟨-, -, -, rfl⟩
    · rfl
    · exact isSome_nodes_amend _ _ _ _
  | leave => obtain ⟨-, rfl⟩ := h; exact isSome_nodes_amend _ _ _ _
  | acquire owner => obtain ⟨-, rfl, -⟩ := h; rfl
  | release owner => obtain ⟨-, rfl⟩ := h; rfl
  | call r => obtain ⟨rfl, -⟩ := h; rfl
  | guarded r => obtain ⟨rfl, -⟩ := h; rfl

/-- No act makes a node or takes one away. -/
theorem Step.isSome_nodes (hstep : Step a c c') (name : String) :
    (c'.nodes name).isSome = (c.nodes name).isSome := by
  cases hstep with
  | rest | launch | land | beat | release => rfl
  | resume flies asks served => exact served.isSome_nodes name
  | abandon flies => exact isSome_nodes_amend _ _ _ _

/-- What the locks of flights rest on stays, whatever happens. -/
theorem Ordered.step (h : c.Ordered own lockPrefix) (hstep : Step a c c') :
    c'.Ordered own lockPrefix := by
  refine ⟨h.flying.step hstep, h.marked.step h.flying hstep, fun name hthere => ?_⟩
  rw [hstep.settings]
  exact h.named name (hstep.isSome_nodes name ▸ hthere)

/-- The lock of a flight stays recorded where its lease is not touched. -/
theorem Kept.of_lookup (h : c.Kept f held) (hsettings : c'.settings = c.settings)
    (halike : Backing.Alike c.locks.backing c'.locks.backing)
    (hlookup : c'.locks.backing.lookup held.key = c.locks.backing.lookup held.key)
    (hsame : f'.agent = f.agent ∧ f'.node = f.node) : c'.Kept f' held := by
  have hexpiry : c'.expiry f' held = c.expiry f held := by
    rw [expiry, expiry, halike.expiry, hsettings, hsame.2]
  refine ⟨?_, halike.isOpen.2 h.isOpen, ?_⟩
  · rw [h.key, lockKey, lockKey, hsettings, hsame.1, hsame.2]
  · rw [hlookup, hexpiry, h.recorded]

/-- A lock that has just been granted is recorded. -/
theorem Kept.of_granted (hsound : c.locks.backing.Sound) {owner : String}
    (hgranted : (c.locks.serve c.now (c.acquire f owner)).1 = .ok true)
    (hsame : f'.agent = f.agent ∧ f'.node = f.node) :
    (c.ask (c.acquire f owner)).Kept f' (c.granted f owner) := by
  have hacquired := Faulty.serve_acquire hsound c.now (c.settings f.node).lockLifetime
    (c.lockKey f) owner
  refine ⟨?_, hacquired.isOpen.2 (hacquired.opened hgranted), ?_⟩
  · rw [lockKey, hsame.1, hsame.2]
    rfl
  · rw [expiry, hsame.2, show (c.ask (c.acquire f owner)).locks.backing.expiry _ _ = _ from
      hacquired.expiry _ _]
    exact hacquired.granted hgranted

/-- A heartbeat in time is not refused. -/
theorem Kept.answer (h : c.Kept f held) (hsound : c.locks.backing.Sound)
    (hbeats : c.locks.onHeartbeat = []) (hforce : c.now < c.expiry f held) :
    (c.locks.serve c.now (c.heartbeat f held)).1 = .ok true := by
  have hextended := Faulty.serve_heartbeat hsound hbeats c.now (c.settings f.node).lockLifetime
    held.key held.owner
  exact (hextended.answer h.isOpen).2 ⟨_, h.recorded, rfl, hforce⟩

/-- After a heartbeat a lock is recorded, whether it has been extended or not. -/
theorem Kept.beaten (h : c.Kept f held) (hsound : c.locks.backing.Sound) {due : Nat}
    {reply : Except StoreError Bool}
    (hanswered : (c.locks.serve c.now (c.heartbeat f held)).1 = reply)
    (hsame : f'.agent = f.agent ∧ f'.node = f.node) :
    (c.ask (c.heartbeat f held)).Kept f'
      (held.beaten c.now due (c.settings f.node).heartbeatInterval reply) := by
  have hrenewed := Faulty.serve_heartbeat_renewed hsound c.now (c.settings f.node).lockLifetime
    held.key held.owner
  by_cases htrue : reply = .ok true
  · subst htrue
    refine ⟨?_, hrenewed.isOpen.2 h.isOpen, ?_⟩
    · rw [lockKey, hsame.1, hsame.2]
      exact h.key
    · rw [expiry, hsame.2, show (c.ask (c.heartbeat f held)).locks.backing.expiry _ _ = _ from
        hrenewed.expiry _ _]
      exact hrenewed.extended hanswered
  · -- the lease is as it was, and so is the moment from which its lifetime counts
    have hkept : (c.ask (c.heartbeat f held)).Kept f' held :=
      h.of_lookup rfl hrenewed.toAlike (hrenewed.refused (hanswered ▸ htrue)) hsame
    rw [held.beaten_of_ne htrue]
    exact ⟨hkept.key, hkept.isOpen, hkept.recorded⟩

/-- A flight is put in the place of another one, and the leases of all others are not touched. -/
theorem Leased.put (h : c.Leased) {g : Option Flight} (hsettings : c'.settings = c.settings)
    (hflights : c'.flights = c.flights) (halike : Backing.Alike c.locks.backing c'.locks.backing)
    (hothers : ∀ j f held, j ≠ id → c.flights j = some f → f.lock = some held →
      c'.locks.backing.lookup held.key = c.locks.backing.lookup held.key)
    (hself : ∀ f' held, g = some f' → f'.lock = some held → c'.Kept f' held) :
    (c'.put id g).Leased := by
  refine ⟨halike.sound, ?_⟩
  intro j f' held hf' hheld
  by_cases hj : j = id
  · subst hj
    have hput : g = some f' := by simpa [Outline.put] using hf'
    have hkept := hself f' held hput hheld
    exact ⟨hkept.key, hkept.isOpen, hkept.recorded⟩
  · have hold : c.flights j = some f' := by simpa [Outline.put, hj, hflights] using hf'
    have hkept := (h.kept j f' held hold hheld).of_lookup hsettings halike
      (hothers j f' held hj hold hheld) ⟨rfl, rfl⟩
    exact ⟨hkept.key, hkept.isOpen, hkept.recorded⟩

/-- Locks, settings and flights are all that it depends on. -/
theorem Leased.congr (h : c.Leased)
    (hsame : c'.settings = c.settings ∧ c'.flights = c.flights ∧ c'.locks = c.locks) :
    c'.Leased := by
  obtain ⟨hsettings, hflights, hlocks⟩ := hsame
  have halike : Backing.Alike c.locks.backing c'.locks.backing := by
    rw [hlocks]
    exact .refl h.sound
  refine ⟨halike.sound, ?_⟩
  intro id f held hf hheld
  exact (h.kept id f held (hflights ▸ hf) hheld).of_lookup hsettings halike (by rw [hlocks])
    ⟨rfl, rfl⟩

/-- A flight goes on with its lock, if it has one. -/
theorem Leased.keep (h : c.Leased) (hflies : c.flights id = some f)
    (hrest : c'.settings = c.settings ∧ c'.flights = c.flights ∧ c'.locks = c.locks)
    (hsame : f'.agent = f.agent ∧ f'.node = f.node) (hlock : f'.lock = f.lock) :
    (c'.put id (some f')).Leased := by
  have hc' := h.congr hrest
  apply hc'.put rfl rfl (.refl hc'.sound) fun _ _ _ _ _ _ => rfl
  intro g held hg hheld
  obtain rfl := Option.some.inj hg
  have hf : c'.flights id = some f := hrest.2.1 ▸ hflies
  exact (hc'.kept id f held hf (hlock ▸ hheld)).of_lookup rfl (.refl hc'.sound) rfl hsame

/-- A flight is gone. -/
theorem Leased.drop (h : c.Leased) (id : Nat) : (c.put id none).Leased :=
  h.put rfl rfl (.refl h.sound) (fun _ _ _ _ _ _ => rfl) fun g held hg => by simp at hg

/-- A flight asks for the lock of its agent. -/
theorem Leased.acquire (h : c.Leased) (hordered : c.Ordered own lockPrefix) (hown : Distinct own)
    (hpunctual : c.Punctual) (hflies : c.flights id = some f) {name owner : String}
    (hentered : c.Entered name f.agent id) (howner : own name owner)
    {reply : Except StoreError Bool} (hreply : reply = (c.locks.serve c.now (c.acquire f owner)).1)
    (hgranted : reply = .ok true → f'.lock = some (c.granted f owner))
    (hrefused : reply ≠ .ok true → f'.lock = none)
    (hsame : f'.agent = f.agent ∧ f'.node = f.node) :
    ((c.ask (c.acquire f owner)).put id (some f')).Leased := by
  have hacquired := Faulty.serve_acquire h.sound c.now (c.settings f.node).lockLifetime
    (c.lockKey f) owner
  rw [show (c.locks.serve c.now
    (.acquire (c.lockKey f) owner (c.settings f.node).lockLifetime)).1 = reply from
      hreply.symm] at hacquired
  refine h.put rfl rfl hacquired.toAlike ?_ ?_
  -- the locks of the other flights: this request could only take the one under its key
  · intro j g held hj hg hheld
    have hkept := h.kept j g held hg hheld
    by_cases hkey : held.key = c.lockKey f
    · by_cases htrue : reply = .ok true
      · -- the lease of the other flight is in force, so the two would be of one node
        exfalso
        have hagent : g.agent = f.agent :=
          agent_of_lockKey ((hordered.lockPrefix_eq hg).trans (hordered.lockPrefix_eq hflies).symm)
            (hkept.key.symm.trans hkey)
        rcases hacquired.free htrue _ (hkey ▸ hkept.recorded) with hexpired | heq
        · exact absurd (hpunctual j g held hg hheld) (Nat.not_lt.2 hexpired)
        · have hsameOwner : held.owner = owner := heq
          obtain ⟨other, hother, hentered'⟩ := hordered.flying.holder hg hheld
          obtain rfl : other = name := hown other name _ hother (hsameOwner ▸ howner)
          exact hj (hordered.marked.alone other f.agent j id (hagent ▸ hentered') hentered)
      · rw [hkey]
        exact hacquired.refused htrue
    · exact hacquired.other held.key hkey
  · intro g held hg hheld
    obtain rfl := Option.some.inj hg
    by_cases htrue : reply = .ok true
    · obtain rfl : c.granted f owner = held :=
        Option.some.inj ((hgranted htrue).symm.trans hheld)
      exact .of_granted h.sound (hreply.symm.trans htrue) hsame
    · simp [hrefused htrue] at hheld

/-- A flight gives up the lock of its agent. -/
theorem Leased.release (h : c.Leased) (hordered : c.Ordered own lockPrefix) (hown : Distinct own)
    (hflies : c.flights id = some f) (hholds : f.lock = some held) (hgone : f'.lock = none)
    (owner : String) :
    ((c.ask (.release (c.lockKey f) owner)).put id (some f')).Leased := by
  have hreleased := Faulty.serve_release_spared h.sound c.now (c.lockKey f) owner
  refine h.put rfl rfl hreleased.toAlike ?_ ?_
  · intro j g held' hj hg hheld'
    apply hreleased.other held'.key
    intro hkey
    have hkeys : held'.key = held.key := hkey.trans (h.kept id f held hflies hholds).key.symm
    exact hj (h.alone_of_key hordered hown hg hflies hheld' hholds hkeys)
  · intro g held' hg hheld'
    obtain rfl := Option.some.inj hg
    simp [hgone] at hheld'

/-- A heartbeat leaves the locks of flights recorded, whatever it is answered. -/
theorem Leased.beat (h : c.Leased) (hordered : c.Ordered own lockPrefix) (hown : Distinct own)
    (hflies : c.flights id = some f) (hholds : f.lock = some held) (due : Nat)
    {reply : Except StoreError Bool}
    (hanswered : (c.locks.serve c.now (c.heartbeat f held)).1 = reply) :
    ((c.ask (c.heartbeat f held)).put id (some { f with
      lock := some (held.beaten c.now due (c.settings f.node).heartbeatInterval reply)
      })).Leased := by
  have hrenewed := Faulty.serve_heartbeat_renewed h.sound c.now (c.settings f.node).lockLifetime
    held.key held.owner
  refine h.put rfl rfl hrenewed.toAlike ?_ ?_
  · intro j g held' hj hg hheld'
    apply hrenewed.other held'.key
    intro hkey
    exact hj (h.alone_of_key hordered hown hg hflies hheld' hholds hkey)
  · intro g held' hg hheld'
    obtain rfl := Option.some.inj hg
    obtain rfl := Option.some.inj hheld'
    exact (h.kept id f held hflies hholds).beaten h.sound hanswered ⟨rfl, rfl⟩

/-- An answered request keeps the locks of flights recorded. -/
theorem Leased.resume (h : c.Leased) (hordered : c.Ordered own lockPrefix) (hown : Distinct own)
    (hpunctual : c.Punctual) (hflies : c.flights id = some f) {r : Request} {reply : r.Reply}
    {next : r.Reply → Steps Ended} (hasks : f.program = .ask r next)
    (hserved : Served id f c r reply f' c') :
    (c'.put id (some { f' with program := next reply })).Leased := by
  have hkeep (hnone : c.asked f r = none) :
      (c'.put id (some { f' with program := next reply })).Leased := by
    obtain ⟨-, hsettings, -, hflights, -, -⟩ := hserved.frame
    obtain ⟨hlocks, hlock⟩ := hserved.unasked hnone
    exact h.keep hflies ⟨hsettings, hflights, hlocks⟩ hserved.same hlock
  obtain ⟨name, phase, hname, hfollows, hat⟩ := hordered.flying.onCourse id f hflies
  rw [hasks] at hfollows
  -- by the course of the flight, the owner it asks with is its process's
  cases hfollows with
  | acquire owned =>
    have hsame := hserved.same
    obtain ⟨hreply, rfl, hgranted, hrefused⟩ := hserved
    have hentered : c.Entered name f.agent id := ⟨f, hflies, hat.1, hname, rfl⟩
    refine h.acquire hordered hown hpunctual hflies hentered owned hreply ?_ ?_ hsame
    · intro htrue
      rw [hgranted htrue]
    · intro hfalse
      rw [hrefused hfalse]
      exact hat.2.1
  | release =>
    obtain ⟨rfl, rfl⟩ := hserved
    obtain ⟨-, -, -, held, hheld, -⟩ := hat
    exact h.release hordered hown hflies hheld rfl _
  | resolve | enter | call | leave | guarded => exact hkeep rfl

/-- The locks of flights are recorded, whatever happens. -/
theorem Leased.step (h : c.Leased) (hordered : c.Ordered own lockPrefix) (hown : Distinct own)
    (hpunctual : c.Punctual) (hspared : c.Spared a) (hstep : Step a c c') : c'.Leased := by
  -- all steps but requests for locks leave the leases of the other flights alone
  cases hstep with
  | rest => exact h.congr ⟨rfl, rfl, rfl⟩
  | launch node =>
    have hmore : ({ c with nextFlight := c.nextFlight + 1 } : Outline).Leased :=
      h.congr ⟨rfl, rfl, rfl⟩
    refine hmore.put rfl rfl (.refl hmore.sound) (fun _ _ _ _ _ _ => rfl) ?_
    intro g held hg hheld
    obtain rfl := Option.some.inj hg
    simp at hheld
  | land => exact h.drop _
  | resume flies asks served => exact h.resume hordered hown hpunctual flies asks served
  | beat flies holds beats reached answered =>
    exact h.beat hordered hown flies holds _ answered
  | @release _ index left remains =>
    have hreleased := Faulty.serve_release_spared h.sound c.now left.key left.owner
    refine ⟨hreleased.sound, ?_⟩
    intro id f held hf hheld
    have hkept := h.kept id f held hf hheld
    refine hkept.of_lookup rfl hreleased.toAlike ?_ ⟨rfl, rfl⟩
    by_cases hkey : held.key = left.key
    · -- the lock is another owner's
      have hrecorded := hkept.recorded
      rw [hkey] at hrecorded ⊢
      have hne : held.owner ≠ left.owner := hspared left remains id f held hf hheld hkey
      exact (hreleased.foreign _ hrecorded hne).trans hrecorded.symm
    · exact hreleased.other held.key hkey
  | @abandon _ id f flies =>
    have hleft : (c.amend f.node (Post.leave id f)).Leased := h.congr ⟨rfl, rfl, rfl⟩
    exact (hleft.drop id).congr ⟨rfl, rfl, rfl⟩

end Outline

end Cluster

end EntityCache
