import EntityCache.Proofs.Cluster.Exclusion
import EntityCache.Proofs.Cluster.Reports
import EntityCache.Proofs.Firing.Departures

/-!
# A cycle leaves no trace

`Outline.Watched` ties the fields of the flights of a fleet, and through them the marks of its nodes
and the names of the locks, to what the flights have exchanged; every act keeps it
(`World.watched_act`), whatever the lock service answers and whichever flights are abandoned.

`World.LeavesNoTrace` says what follows for the runs of a fleet.  Nothing is marked but the agents
of the flights that are past their entry, one flight for each.  A flight that is skipped changes no
lock.  A flight that is granted the lock gives it back; once that is carried out, nobody takes the
lock as its owner until the flight has left: only a flight of the same node and agent could, and
that one finds the agent marked (`World.not_heldBy_act`).
-/

namespace EntityCache

namespace Cluster

open Firing Function

open Lock (Backing Faulty Lease)

/-! ## What is known of flights -/

/-- The name of the lock that an act is about, if it is about one. -/
def Act.key? : Act → World → Option String
  | .move (.resume id), w => w.flights[id]?.map (w.lockKey ·)
  | .move (.beat id), w => w.flights[id]?.map (w.lockKey ·)
  | .move (.release index), w => w.releases[index]?.map (·.key)
  | _, _ => none

namespace Outline

variable {own : String → String → Prop} {a : Act} {c c' : Outline} {id : Nat} {f f' : Flight}
  {xs : Nat → List (Exchange Request.Reply)}

/-- Locks of flights have the names that their nodes give them. -/
def Keyed (c : Outline) : Prop :=
  ∀ id f held, c.flights id = some f → f.lock = some held → held.key = c.lockKey f

/-- Flights keep to the protocol, nodes are marked by them, and their fields are what their
exchanges have made of them. -/
structure Watched (own : String → String → Prop) (xs : Nat → List (Exchange Request.Reply))
    (c : Outline) : Prop where
  flying : c.Flying own
  marked : c.Marked
  sound : c.locks.backing.Sound
  keyed : c.Keyed
  tracked : c.Tracked xs
  fields : ∀ id f, c.flights id = some f →
    f.entered = entered (xs id) ∧ f.lock.isSome = locked (xs id)

/-- A flight that changes keeps the keys right if its own lock stays under its own key. -/
theorem Keyed.put (h : c.Keyed) {g : Option Flight} (hsettings : c'.settings = c.settings)
    (hflights : c'.flights = c.flights)
    (hg : ∀ f held, g = some f → f.lock = some held → held.key = c.lockKey f) :
    (c'.put id g).Keyed := by
  intro j f held hf hheld
  have hkey : (c'.put id g).lockKey f = c.lockKey f :=
    congrArg (fun settings => (settings f.node).lockPrefix ++ f.agent) hsettings
  rw [hkey]
  by_cases hj : j = id
  · subst hj
    exact hg f held (by simpa [Outline.put] using hf) hheld
  · exact h j f held (by simpa [Outline.put, hj, hflights] using hf) hheld

/-- In every step a flight holds its lock under the key of its agent. -/
theorem Keyed.step (h : c.Keyed) (hstep : Step a c c') : c'.Keyed := by
  cases hstep with
  | rest | release => exact h
  | launch node =>
    refine h.put rfl rfl fun g held hg hheld => ?_
    obtain rfl := Option.some.inj hg
    cases hheld
  | land => exact h.put rfl rfl fun g held hg => by cases hg
  | @resume _ _ id f f' r next reply flies asks served =>
    obtain ⟨-, hsettings, -, hflights, -⟩ := served.frame
    refine h.put hsettings hflights fun g held hg hheld => ?_
    obtain rfl := Option.some.inj hg
    have hname : c.lockKey { f' with program := next reply } = c.lockKey f := by
      rw [lockKey, lockKey, served.same.1, served.same.2]
    rw [hname]
    -- only an acquisition gives a flight a lock
    have hkept (hsame : f'.lock = f.lock) : held.key = c.lockKey f :=
      h id f held flies (hsame.symm.trans hheld)
    cases r with
    | acquire owner =>
      obtain ⟨-, -, hgranted, hrefused⟩ := served
      by_cases hreply : reply = .ok true
      · rw [hgranted hreply] at hheld
        obtain rfl := Option.some.inj hheld
        rfl
      · exact hkept (by rw [hrefused hreply])
    | release owner =>
      obtain ⟨rfl, -⟩ := served
      cases hheld
    | resolve | enter | leave | call | guarded => exact hkept (served.unasked rfl).2
  | @beat _ id f lock _ reply flies holds beats reached answered =>
    refine h.put rfl rfl fun g held hg hheld => ?_
    obtain rfl := Option.some.inj hg
    obtain rfl := Option.some.inj hheld
    rw [(lock.same_beaten reply).1]
    exact h id f lock flies holds
  | abandon flies => exact h.put rfl rfl fun g held hg => by cases hg

/-- A lock is asked for by a flight that is to acquire it. -/
theorem exists_of_request?_acquire {key owner : String} {lifetime : Nat}
    (h : c.request? a = some (.acquire key owner lifetime)) :
    ∃ id f next, c.flights id = some f ∧ f.program = .ask (.acquire owner) next ∧
      key = c.lockKey f := by
  -- requests come from a flight that goes on, a heartbeat or a release; only the first kind asks
  unfold request? at h
  split at h
  · obtain ⟨f, hflies, hasks⟩ := Option.bind_eq_some_iff.1 h
    split at hasks
    case h_2 => cases hasks
    case h_1 r next hprogram =>
      cases r with
      | acquire asker =>
        cases hasks
        exact ⟨_, f, next, hflies, hprogram, rfl⟩
      | release | resolve | enter | leave | call | guarded => cases hasks
  · obtain ⟨f, -, hbeats⟩ := Option.bind_eq_some_iff.1 h
    obtain ⟨held, -, hdue⟩ := Option.bind_eq_some_iff.1 hbeats
    obtain ⟨due, -, hasks⟩ := Option.bind_eq_some_iff.1 hdue
    split at hasks <;> cases hasks
  · obtain ⟨left, -, hasks⟩ := Option.bind_eq_some_iff.1 h
    cases hasks
  · cases h

/-- A request that is neither granted a lock nor gives one back changes none. -/
theorem Served.lookup {r : Request} {reply : r.Reply} (h : Served id f c r reply f' c')
    (hsound : c.locks.backing.Sound)
    (hgranted : ∀ owner, (⟨r, reply⟩ : Exchange Request.Reply) ≠ ⟨.acquire owner, .ok true⟩)
    (hrelease : ∀ owner, r ≠ .release owner) (key : String) :
    c'.locks.backing.lookup key = c.locks.backing.lookup key := by
  cases r with
  | acquire owner =>
    obtain ⟨rfl, rfl, -⟩ := h
    have hacquired := Faulty.serve_acquire hsound c.now (c.settings f.node).lockLifetime
      (c.lockKey f) owner
    -- a request that is not granted leaves the lock with whoever has it
    have hrefused : (c.locks.serve c.now (c.acquire f owner)).1 ≠ .ok true :=
      fun htrue => hgranted owner (by rw [htrue])
    by_cases hkey : key = c.lockKey f
    · subst hkey
      exact hacquired.refused hrefused
    · exact hacquired.other key hkey
  | release owner => exact absurd rfl (hrelease owner)
  | resolve | enter | leave | call | guarded => rw [(h.unasked rfl).1]

/-- A flight that gives its lock back holds it. -/
theorem Flying.releaser (h : c.Flying own) (hflies : c.flights id = some f) {owner : String}
    {next : Unit → Steps Ended} (hasks : f.program = .ask (.release owner) next) :
    ∃ name held, f.node = some name ∧ own name owner ∧ f.lock = some held := by
  obtain ⟨name, phase, hname, hfollows, hat⟩ := h.onCourse id f hflies
  rw [hasks] at hfollows
  cases hfollows with
  | release =>
    obtain ⟨-, -, hown, held, hheld, -⟩ := hat
    exact ⟨name, held, hname, hown, hheld⟩

/-- A flight that is to acquire a lock has marked its agent, and asks as its node. -/
theorem Flying.asker (h : c.Flying own) (hflies : c.flights id = some f) {owner : String}
    {next : Except StoreError Bool → Steps Ended}
    (hasks : f.program = .ask (.acquire owner) next) :
    ∃ name, own name owner ∧ c.Entered name f.agent id := by
  obtain ⟨name, phase, hname, hfollows, hat⟩ := h.onCourse id f hflies
  rw [hasks] at hfollows
  cases hfollows with
  | acquire owned => exact ⟨name, owned, f, hflies, hat.1, hname, rfl⟩

/-- A flight that asks for no lock any more has marked its agent until it ends. -/
theorem Flying.entered_of_parting (h : c.Flying own) (hflies : c.flights id = some f)
    (hparting : Parting f.program) (hcruises : f.program.value? = none) : f.entered = true := by
  obtain ⟨name, phase, -, hfollows, hat⟩ := h.onCourse id f hflies
  generalize f.program = p at hparting hcruises hfollows
  cases hparting with
  | done => cases hcruises
  | call | leave =>
    cases hfollows
    exact hat.1

/-- A flight that has ended has no mark. -/
theorem Flying.not_entered_of_done (h : c.Flying own) (hflies : c.flights id = some f)
    (hdone : f.program.value?.isSome) : f.entered = false := by
  obtain ⟨ended, hvalue⟩ := Option.isSome_iff_exists.1 hdone
  obtain ⟨name, phase, -, hfollows, hat⟩ := h.onCourse id f hflies
  rw [Program.value?_eq_some.1 hvalue] at hfollows
  cases hfollows
  exact hat.1

/-- Only its own turn and its end by force take a flight away. -/
theorem Step.flies (h : Step a c c') (hflies : c.flights id = some f)
    (hresume : a ≠ .move (.resume id)) (habandon : a ≠ .move (.abandon id)) :
    ∃ f', c'.flights id = some f' := by
  -- a flight is taken away only by landing or by being abandoned
  have hother {id' : Nat} {g : Option Flight} (hid : id ≠ id') :
      ∃ f', (c.put id' g).flights id = some f' := ⟨f, by simpa [Outline.put, hid] using hflies⟩
  cases h with
  | rest | release => exact ⟨f, hflies⟩
  | launch =>
    by_cases hid : id = c.nextFlight
    · subst hid
      exact ⟨_, by simp [Outline.launch, Outline.put]; rfl⟩
    · exact hother hid
  | land => exact hother fun hid => hresume (by rw [hid])
  | @resume _ _ id' _ _ _ _ _ flies asks served =>
    have hid : id ≠ id' := fun hid => hresume (by rw [hid])
    obtain ⟨-, -, -, hflights, -⟩ := served.frame
    exact ⟨f, by simpa [Outline.put, hid, hflights] using hflies⟩
  | @beat _ id' =>
    by_cases hid : id = id'
    · subst hid
      exact ⟨_, by simp [Outline.put]; rfl⟩
    · exact hother hid
  | abandon => exact hother fun hid => habandon (by rw [hid])

end Outline

namespace World

variable {own : String → String → Prop} {a : Act} {w : World} {id : Nat} {f f' : Flight}
  {xs : Nat → List (Exchange Request.Reply)} {name agent owner : String}

/-- An act asks only for the lock that it is about. -/
theorem key?_of_request? {q : Lock.Request} (hkeyed : w.outline.Keyed)
    (h : w.outline.request? a = some q) : a.key? w = some q.key := by
  -- the same three kinds of requests, each on the key that the act names
  unfold Outline.request? at h
  split at h
  · obtain ⟨f, hflies, hasks⟩ := Option.bind_eq_some_iff.1 h
    have hthere : w.flights[_]? = some f := hflies
    rw [Act.key?, hthere]
    split at hasks
    case h_2 => cases hasks
    case h_1 r next hprogram => cases r <;> cases hasks <;> rfl
  · obtain ⟨f, hflies, hbeats⟩ := Option.bind_eq_some_iff.1 h
    obtain ⟨held, hheld, hdue⟩ := Option.bind_eq_some_iff.1 hbeats
    obtain ⟨due, -, hasks⟩ := Option.bind_eq_some_iff.1 hdue
    have hthere : w.flights[_]? = some f := hflies
    rw [Act.key?, hthere]
    split at hasks
    · cases hasks
      exact congrArg some (hkeyed _ f held hflies hheld).symm
    · cases hasks
  · obtain ⟨left, hleft, hasks⟩ := Option.bind_eq_some_iff.1 h
    have hthere : w.releases[_]? = some left := hleft
    cases hasks
    rw [Act.key?, hthere]
    rfl
  · cases h

/-- An act leaves every lock as it is but the one that it is about. -/
theorem lookup_act_of_ne (h : w.outline.Watched own xs) {key : String}
    (hkey : a.key? w ≠ some key) :
    (w.act a).locks.backing.lookup key = w.locks.backing.lookup key := by
  rcases (step_act a w).locks with hsame | ⟨q, hq, hserved⟩
  · exact congrArg (·.backing.lookup key) hsame
  · have hother : key ≠ q.key := by
      rintro rfl
      exact hkey (key?_of_request? h.keyed hq)
    rw [show (w.act a).locks = (w.locks.serve w.now q).2 from hserved]
    exact Faulty.lookup_serve_of_ne h.sound w.now hother

/-- Every act keeps what is known of flights. -/
theorem watched_act (h : w.outline.Watched own xs) (a : Act) :
    (w.act a).outline.Watched own fun id => xs id ++ (w.exchange? id a).toList := by
  have hstep := step_act a w
  refine ⟨h.flying.step hstep, h.marked.step h.flying hstep, ?sound, h.keyed.step hstep,
    tracked_act h.tracked a, fun id f' hflies => ?fields⟩
  case sound =>
    rcases hstep.locks with hsame | ⟨q, -, hserved⟩
    · rw [hsame]
      exact h.sound
    · rw [hserved]
      exact (Faulty.alike_serve h.sound _ q).sound
  case fields =>
    rw [entered, locked, List.foldl_append, List.foldl_append]
    -- a flight that was there goes on by its exchange; a new one has made none
    rcases flies_of_act a hflies with ⟨f, hthere, hgoes⟩ | ⟨hid, -, hentered, hlock, -⟩
    · obtain ⟨hentered, hlocked⟩ := h.fields id f hthere
      rw [hgoes.entered, hgoes.locked, hentered, hlocked]
      exact ⟨rfl, rfl⟩
    · obtain ⟨hnone, hnil⟩ := h.tracked.unused id (Nat.le_of_eq hid.symm)
      rw [hnil, exchange?_of_not_flies hnone, hentered, hlock]
      exact ⟨rfl, rfl⟩

/-- Over a run, each flight stays watched with the exchanges that it has made. -/
theorem watched_run (h : w.outline.Watched own fun _ => []) (acts : List Act) :
    (w.run acts).outline.Watched own fun id => w.exchanges id acts := by
  induction acts using List.reverseRecOn with
  | nil => exact h
  | append_singleton acts a ih =>
    simp only [run_concat, exchanges_concat]
    exact watched_act ih a

/-! ## Flights that are granted no lock -/

/-- As long as a flight is granted no lock, its acts change none. -/
theorem lookup_act_of_never_granted (h : w.outline.Watched own xs)
    (hnever : ∀ owner, ⟨.acquire owner, .ok true⟩ ∉ xs id ++ (w.exchange? id a).toList)
    (ha : a = .move (.resume id) ∨ a = .move (.beat id)) (key : String) :
    (w.act a).locks.backing.lookup key = w.locks.backing.lookup key := by
  have hunlocked {f : Flight} (hflies : w.flights[id]? = some f) : f.lock = none := by
    by_contra hlock
    have hlocked : locked (xs id) = true := by
      rw [← (h.fields id f hflies).2]
      exact Option.isSome_iff_ne_none.2 hlock
    obtain ⟨owner, hmem⟩ := granted_of_locked hlocked
    exact hnever owner (List.mem_append_left _ hmem)
  rcases ha with rfl | rfl
  case inr =>
    -- without a lock there is no heartbeat
    rcases (step_act (.move (.beat id)) w).locks with hsame | ⟨q, hq, -⟩
    · exact congrArg (·.backing.lookup key) hsame
    · obtain ⟨f, hflies, hbeats⟩ := Option.bind_eq_some_iff.1 hq
      obtain ⟨held, hheld, -⟩ := Option.bind_eq_some_iff.1 hbeats
      cases (hunlocked hflies).symm.trans hheld
  case inl =>
    suffices hlocks : (w.resume id).outline.locks.backing.lookup key =
        w.locks.backing.lookup key from hlocks
    cases hexchange : w.exchange? id (.move (.resume id)) with
    | none =>
      rcases resume_of_no_exchange hexchange with hrest | ⟨f, ended, -, -, hlands⟩
      · rw [hrest]
        rfl
      · rw [hlands]
        rfl
    | some x =>
      obtain ⟨f, f', c', next, hflies, hasks, hserved, houtline⟩ := served_of_exchange? hexchange
      rw [houtline]
      show c'.locks.backing.lookup key = w.locks.backing.lookup key
      refine hserved.lookup h.sound (fun owner hgranted => ?_) (fun owner hrelease => ?_) key
      · refine hnever owner (List.mem_append_right _ ?_)
        rw [hexchange, ← hgranted]
        exact List.mem_singleton.2 rfl
      · -- what gives a lock back has been granted it
        obtain ⟨r, reply⟩ := x
        obtain rfl : r = .release owner := hrelease
        obtain ⟨-, held, -, -, hheld⟩ := h.flying.releaser hflies hasks
        cases (hunlocked hflies).symm.trans hheld

/-! ## Flights that give their lock back -/

/-- A lock is recorded for an owner, expired or not. -/
def HeldBy (key owner : String) (w : World) : Prop :=
  ∃ lease, w.locks.backing.lookup key = some lease ∧ lease.owner = owner

/-- A flight keeps the name of its lock. -/
theorem lockKey_act (a : Act) (w : World) (hsame : f'.agent = f.agent ∧ f'.node = f.node) :
    (w.act a).lockKey f' = w.lockKey f := by
  have hsettings : (w.act a).settings f'.node = w.settings f'.node :=
    congrFun (step_act a w).settings f'.node
  rw [lockKey, hsettings, hsame.1, hsame.2]
  rfl

/-- As long as a flight is past its entry and does not ask for the lock of its agent, nobody takes
the lock as an owner of the flight's node. -/
theorem not_heldBy_act (h : w.outline.Watched own xs) (hown : Distinct own)
    (hflies : w.flights[id]? = some f) (hentered : f.entered = true) (hname : f.node = some name)
    (howner : own name owner) (hparting : Parting f.program)
    (hfree : ¬w.HeldBy (w.lockKey f) owner) (a : Act) :
    ¬(w.act a).HeldBy (w.lockKey f) owner := by
  rintro ⟨lease, hrecorded, rfl⟩
  rcases (step_act a w).locks with hsame | ⟨q, hq, hserved⟩
  · rw [show (w.act a).locks = w.locks from hsame] at hrecorded
    exact hfree ⟨lease, hrecorded, rfl⟩
  · rw [show (w.act a).locks = (w.locks.serve w.now q).2 from hserved] at hrecorded
    rcases Faulty.owner_serve h.sound hrecorded with hbefore | ⟨lifetime, rfl⟩
    · exact hfree hbefore
    · -- a flight of the same node asks for the lock, so it is the flight itself
      obtain ⟨j, g, next, hg, hasks, hkey⟩ := Outline.exists_of_request?_acquire hq
      obtain ⟨other, hother, hasker⟩ := h.flying.asker hg hasks
      obtain rfl : other = name := hown other name _ hother howner
      have hplace : g.node = some other := by
        obtain ⟨g', hg', -, hnode, -⟩ := hasker
        exact Option.some.inj (hg.symm.trans hg') ▸ hnode
      have hagent : f.agent = g.agent :=
        Outline.agent_of_lockKey (c := w.outline) (by rw [hname, hplace]) hkey
      have hself : w.outline.Entered other g.agent id := ⟨f, hflies, hentered, hname, hagent⟩
      obtain rfl := h.marked.alone _ _ _ _ hself hasker
      obtain rfl : f = g := Option.some.inj (hflies.symm.trans hg)
      rw [hasks] at hparting
      cases hparting

/-- It is a flight's turn to give a lock back as an owner, and the lock service carries it out. -/
def GivesBack (id : Nat) (owner : String) (w : World) : Prop :=
  w.exchange? id (.move (.resume id)) = some ⟨.release owner, ()⟩ ∧
    ∃ f, w.flights[id]? = some f ∧
      (w.askLock f.agent (.release (w.lockKey f) owner)).1 = .ok true

/-- A flight of a node has given its lock back: as long as it goes on, its owner does not hold
it. -/
structure Freed (id : Nat) (name owner : String) (w : World) : Prop where
  number : id < w.nextFlight
  flight : ∀ f, w.flights[id]? = some f → f.node = some name ∧ Parting f.program ∧
    (f.program.value? = none → ¬w.HeldBy (w.lockKey f) owner)

/-- A lock that is free of an owner stays so in an act, as the only flight that could take it is
gone. -/
theorem Freed.act (h : w.Freed id name owner) (hwatched : w.outline.Watched own xs)
    (hown : Distinct own) (howner : own name owner) (a : Act) :
    (w.act a).Freed id name owner := by
  refine ⟨Nat.lt_of_lt_of_le h.number (step_act a w).nextFlight_le, fun f' hflies => ?_⟩
  rcases flies_of_act a hflies with ⟨f, hthere, hgoes⟩ | ⟨hid, -⟩
  case inr => exact absurd hid (Nat.ne_of_lt h.number)
  obtain ⟨hname, hparting, hfree⟩ := h.flight f hthere
  refine ⟨hgoes.node.trans hname, hparting.takes hgoes.program, fun hcruises => ?_⟩
  -- a flight that is over stays over, so one that still goes on did so before
  have hcruised : f.program.value? = none := by
    cases hprogram : f.program with
    | ask r next => rfl
    | done ended =>
      have htakes := hgoes.program
      rw [hprogram] at htakes
      rw [htakes.eq_of_done] at hcruises
      cases hcruises
  rw [lockKey_act a w ⟨hgoes.agent, hgoes.node⟩]
  exact not_heldBy_act hwatched hown hthere
    (hwatched.flying.entered_of_parting hthere hparting hcruised) hname howner hparting
    (hfree hcruised) a

/-- A lock that is free of an owner stays so over a run. -/
theorem Freed.run (h : w.Freed id name owner) (hwatched : w.outline.Watched own xs)
    (hown : Distinct own) (howner : own name owner) (acts : List Act) :
    (w.run acts).Freed id name owner := by
  induction acts generalizing w xs with
  | nil => exact h
  | cons a acts ih =>
    exact ih (h.act hwatched hown howner a) (watched_act hwatched a)

/-- A release that is carried out frees the lock. -/
theorem GivesBack.freed (hgives : w.GivesBack id owner) (h : w.outline.Watched own xs) :
    ∃ name, own name owner ∧ (w.act (.move (.resume id))).Freed id name owner ∧
      ∀ f, (w.act (.move (.resume id))).flights[id]? = some f →
        ¬(w.act (.move (.resume id))).HeldBy ((w.act (.move (.resume id))).lockKey f) owner := by
  obtain ⟨hexchange, f, hthere, hcarried⟩ := hgives
  obtain ⟨g, f', c', next, hthere', hasks, hserved, houtline⟩ := served_of_exchange? hexchange
  obtain rfl : f = g := Option.some.inj (hthere.symm.trans hthere')
  obtain ⟨name, -, hname, howner, -⟩ := h.flying.releaser hthere hasks
  obtain ⟨rfl, rfl⟩ := hserved
  have hafter : (w.act (.move (.resume id))).outline = _ := houtline
  have hreleased : ¬(w.act (.move (.resume id))).HeldBy (w.lockKey f) owner := by
    rintro ⟨lease, hrecorded, hlease⟩
    have hlocks : (w.act (.move (.resume id))).locks = _ := congrArg Outline.locks hafter
    rw [hlocks] at hrecorded
    exact Faulty.owner_ne_of_release h.sound hcarried hrecorded hlease
  have hflight : ∀ g, (w.act (.move (.resume id))).flights[id]? = some g →
      g = { f with lock := none, program := next () } := by
    intro g hg
    have hput : _ = some g := (congrArg (·.flights id) hafter).symm.trans hg
    exact (Option.some.inj (by simpa [Outline.put] using hput)).symm
  have hnobody : ∀ g, (w.act (.move (.resume id))).flights[id]? = some g →
      ¬(w.act (.move (.resume id))).HeldBy ((w.act (.move (.resume id))).lockKey g) owner := by
    intro g hg
    have hkey : (w.act (.move (.resume id))).lockKey g = w.lockKey f :=
      lockKey_act _ w (by rw [hflight g hg]; exact ⟨rfl, rfl⟩)
    rw [hkey]
    exact hreleased
  -- what is left of the program is what stands behind its release
  have hparting : Parting (next ()) := by
    obtain ⟨process, firing, hfiring, htaken⟩ := h.tracked.taken id f hthere
    have hlast := (releasesLast_firing hfiring).takes htaken
    rw [hasks] at hlast
    cases hlast with
    | ask rest last => exact last owner rfl ()
  refine ⟨name, howner, ⟨?_, fun g hg => ⟨?_, ?_, fun _ => hnobody g hg⟩⟩, hnobody⟩
  · exact Nat.lt_of_lt_of_le (h.flying.lt_nextFlight hthere) (step_act _ _).nextFlight_le
  · rw [hflight g hg]
    exact hname
  · rw [hflight g hg]
    exact hparting

/-! ## Runs -/

/-- After a run a flight of an agent on a node is past its entry: it has been let in, and it has not
left. -/
def Past (name agent : String) (id : Nat) (acts : List Act) (w : World) : Prop :=
  ∃ f, (w.run acts).flights[id]? = some f ∧ f.node = some name ∧ f.agent = agent ∧
    entered (w.exchanges id acts) = true

/-- A flight comes to its end with the last act of a run. -/
structure Returns (id : Nat) (f : Flight) (ended : Ended) (acts : List Act) (w : World) :
    Prop where
  flies : (w.run acts).flights[id]? = some f
  done : f.program = .done ended
  last : ∃ before g, acts = before ++ [.move (.resume id)] ∧
    (w.run before).flights[id]? = some g ∧ g.program.value? = none

/-- What the runs of a fleet leave behind of its flights. -/
structure LeavesNoTrace (own : String → String → Prop) (w : World) : Prop where
  /-- At most one flight of an agent is past its entry on a node. -/
  alone : ∀ acts name agent i j, w.Past name agent i acts → w.Past name agent j acts → i = j
  /-- The agents that a node has marked are those of its flights that are past their entry. -/
  marked : ∀ acts name node, (w.run acts).nodes[name]? = some node →
    ∀ agent, agent ∈ node.active ↔ ∃ id, w.Past name agent id acts
  /-- A mark stays, whatever happens to other flights. -/
  kept : ∀ acts name agent id, w.Past name agent id acts →
    ∀ a, a ≠ .move (.resume id) → a ≠ .move (.abandon id) →
      ∀ node, (w.run (acts ++ [a])).nodes[name]? = some node → agent ∈ node.active
  /-- Where all flights of a node have ended, it has no mark. -/
  cleared : ∀ acts name (node : Node), (w.run acts).nodes[name]? = some node →
    (∀ (id : Nat) (f : Flight), (w.run acts).flights[id]? = some f → f.node = some name →
      f.program.value?.isSome) → ∀ agent, agent ∉ node.active
  /-- No act of a flight that is skipped has changed a lock. -/
  skipped : ∀ acts id f reason, w.Returns id f (.outcome (.skipped reason)) acts →
    ∀ before a later, acts = before ++ a :: later →
      a = .move (.resume id) ∨ a = .move (.beat id) → ∀ key,
        (w.run (before ++ [a])).locks.backing.lookup key =
          (w.run before).locks.backing.lookup key
  /-- A flight that was granted the lock of its agent has given it back when it comes to its end;
  if that was carried out, the owner does not hold the lock. -/
  released : Distinct own → ∀ acts id f ended owner, w.Returns id f ended acts →
    ⟨.acquire owner, .ok true⟩ ∈ w.exchanges id acts →
      ⟨.release owner, ()⟩ ∈ w.exchanges id acts ∧
        ∀ before later, acts = before ++ .move (.resume id) :: later →
          (w.run before).GivesBack id owner →
            ¬(w.run acts).HeldBy ((w.run acts).lockKey f) owner
  /-- An act changes no lock but the one that it is about. -/
  others : ∀ acts a key, a.key? (w.run acts) ≠ some key →
    (w.run (acts ++ [a])).locks.backing.lookup key = (w.run acts).locks.backing.lookup key

variable {acts before later : List Act} {ended : Ended}

/-- The flights that are past their entry are those with a mark. -/
theorem past_iff (h : w.outline.Watched own fun _ => []) :
    w.Past name agent id acts ↔ (w.run acts).outline.Entered name agent id := by
  refine exists_congr fun f => and_congr_right fun hflies => ?_
  rw [((watched_run h acts).fields id f hflies).1]
  tauto

/-- After the release nobody has taken the lock as its owner when the flight comes to its end. -/
theorem not_heldBy_of_returns (h : w.outline.Watched own fun _ => []) (hown : Distinct own)
    (hreturns : w.Returns id f ended acts)
    (hacts : acts = before ++ .move (.resume id) :: later)
    (hgives : (w.run before).GivesBack id owner) :
    ¬(w.run acts).HeldBy ((w.run acts).lockKey f) owner := by
  have hbefore := watched_run h before
  obtain ⟨name, howner, hfreed, hreleased⟩ := hgives.freed hbefore
  have hrun (middle : List Act) : w.run (before ++ .move (.resume id) :: middle) =
      ((w.run before).act (.move (.resume id))).run middle := run_append _ _ _
  have hfreed_run (middle : List Act) :
      (w.run (before ++ .move (.resume id) :: middle)).Freed id name owner :=
    hrun middle ▸ hfreed.run (watched_act hbefore _) hown howner middle
  subst hacts
  have hflies := hreturns.flies
  rcases List.eq_nil_or_concat' later with rfl | ⟨middle, a, rfl⟩
  · rw [hrun] at hflies ⊢
    exact hreleased f hflies
  · -- before its last act the flight has a mark, which keeps all others of its node out
    obtain ⟨start, g, hstart, hg, hcruises⟩ := hreturns.last
    obtain rfl : before ++ .move (.resume id) :: middle = start :=
      List.append_inj_left' ((List.append_assoc ..).trans hstart) rfl
    obtain ⟨hname, hparting, hfree⟩ := (hfreed_run middle).flight g hg
    have hwatched := watched_run h (before ++ .move (.resume id) :: middle)
    rw [hstart, run_concat] at hflies ⊢
    rcases flies_of_act _ hflies with ⟨g', hg', hgoes⟩ | ⟨hid, -⟩
    · obtain rfl : g = g' := Option.some.inj (hg.symm.trans hg')
      rw [lockKey_act _ _ ⟨hgoes.agent, hgoes.node⟩]
      exact not_heldBy_act hwatched hown hg
        (hwatched.flying.entered_of_parting hg hparting hcruises) hname howner hparting
        (hfree hcruises) _
    · exact absurd hid (Nat.ne_of_lt (hfreed_run middle).number)

/-- What the runs of a fleet leave behind of its flights: nothing but what they have to. -/
theorem leavesNoTrace_of_watched (h : w.outline.Watched own fun _ => []) : w.LeavesNoTrace own := by
  -- marks are those of flights past their entry, at any time of the run
  have hmarked {acts : List Act} {name : String} {node : Node}
      (hnode : (w.run acts).nodes[name]? = some node) (agent : String) :
      agent ∈ node.active ↔ ∃ id, w.Past name agent id acts := by
    have hpost : (w.run acts).outline.nodes name = some node.post :=
      Option.map_eq_some_iff.2 ⟨node, hnode, rfl⟩
    exact ((watched_run h acts).marked.active name _ agent hpost).trans
      (exists_congr fun id => (past_iff h).symm)
  refine ⟨?alone, fun acts name node hnode => hmarked hnode, ?kept, ?cleared, ?skipped, ?released,
    ?others⟩
  case alone =>
    intro acts name agent i j hi hj
    exact (watched_run h acts).marked.alone name agent i j ((past_iff h).1 hi) ((past_iff h).1 hj)
  case kept =>
    intro acts name agent id hpast a hresume habandon node hnode
    have hwatched := watched_run h acts
    obtain ⟨f, hflies, hentered, hname, hagent⟩ := (past_iff h).1 hpast
    refine (hmarked hnode agent).2 ⟨id, (past_iff h).2 ?_⟩
    rw [run_concat]
    obtain ⟨f', hflies'⟩ := (step_act a (w.run acts)).flies hflies hresume habandon
    rcases flies_of_act a hflies' with ⟨g, hg, hgoes⟩ | ⟨hid, -⟩
    · obtain rfl : f = g := Option.some.inj (hflies.symm.trans hg)
      refine ⟨f', hflies', ?_, hgoes.node.trans hname, hgoes.agent.trans hagent⟩
      rw [hgoes.entered, exchange?_of_ne hresume]
      exact hentered
    · exact absurd hid (Nat.ne_of_lt (hwatched.flying.lt_nextFlight hflies))
  case cleared =>
    intro acts name node hnode hended agent hmem
    obtain ⟨id, hpast⟩ := (hmarked hnode agent).1 hmem
    obtain ⟨f, hflies, hentered, hname, -⟩ := (past_iff h).1 hpast
    have hleft := (watched_run h acts).flying.not_entered_of_done hflies
      (hended id f hflies hname)
    cases hleft.symm.trans hentered
  -- a firing that skips was never granted a lock, so none of its requests changed one
  case skipped =>
    intro acts id f reason hreturns before a later hacts ha key
    obtain ⟨process, firing, hfiring, htaken⟩ :=
      (watched_run h acts).tracked.taken id f hreturns.flies
    rw [hreturns.done, hacts, ← List.singleton_append, ← List.append_assoc, exchanges_append,
      exchanges_concat] at htaken
    rw [run_concat]
    refine lookup_act_of_never_granted (watched_run h before) (fun owner hmem => ?_) ha key
    exact not_granted_of_skipped hfiring htaken owner (List.mem_append_left _ hmem)
  -- a firing that was granted a lock has asked for its release, which freed it for good
  case released =>
    intro hown acts id f ended owner hreturns hgranted
    obtain ⟨process, firing, hfiring, htaken⟩ :=
      (watched_run h acts).tracked.taken id f hreturns.flies
    rw [hreturns.done] at htaken
    exact ⟨released_of_granted hfiring htaken hgranted, fun before later hacts hgives =>
      not_heldBy_of_returns h hown hreturns hacts hgives⟩
  case others =>
    intro acts a key hkey
    rw [run_concat]
    exact lookup_act_of_ne (watched_run h acts) hkey

end World

/-! ## Fleets -/

namespace Fleet

variable {plans : List NodePlan} {locks : Lock.Faulty} {fleet : Fleet}

/-- In a fleet whose nodes share their agents no cycle leaves a trace, whatever starts, waits,
fails, panics or is abandoned in between, and whatever the lock service holds at the start and
answers.  A table of locks has a row for each name. -/
theorem leavesNoTrace (hnew : new? plans locks = some fleet)
    (hshared : ∀ plan ∈ plans, plan.probes.isSome) (hsound : locks.backing.Sound) :
    fleet.world.LeavesNoTrace (Owns plans) := by
  have hlocks : fleet.world.outline.locks = locks := by
    obtain ⟨nodes, -, rfl⟩ := Option.map_eq_some_iff.1 hnew
    rfl
  refine World.leavesNoTrace_of_watched ⟨flying_new hnew hshared, marked_new hnew hshared, ?_,
    fun id f _ hflies => ?_, tracked_new hnew, fun id f hflies => ?_⟩
  · rwa [hlocks]
  · cases (no_flight_new hnew id).symm.trans hflies
  · cases (no_flight_new hnew id).symm.trans hflies

/-- An execution is under way on the first node; meanwhile the agent is skipped on both nodes. -/
def overlap : List Act :=
  .start "a" "agent" { runs := [{ reaction := .panics (some "boom") }] } ::
    List.replicate 11 (.move (.resume 0)) ++
      .start "a" "agent" {} :: List.replicate 2 (.move (.resume 1)) ++
        .start "b" "agent" {} :: List.replicate 10 (.move (.resume 2))

/-- The execution panics, the lock is given back, and the failure is reported. -/
def overlapEnds : List Act := overlap ++ List.replicate 4 (.move (.resume 0))

/-- How the flights of a world have ended, as far as they have. -/
def endings (w : World) : List (Option Ended) :=
  w.flights.toList.map fun entry => entry.2.program.value?

/-- A panic, two cycles that find the lock held: each of the three ends leaves no trace. -/
theorem leavesNoTrace_overlap :
    ∃ fleet, new? twoNodes { backing := .memory ∅ } = some fleet ∧
      fleet.world.LeavesNoTrace (Owns twoNodes) ∧ Distinct (Owns twoNodes) ∧
      endings (fleet.world.run overlap) = [none, some (.outcome (.skipped .lockHeld)),
        some (.outcome (.skipped .lockHeld))] ∧
      endings (fleet.world.run overlapEnds) =
        [some (.outcome (.failed ["Agent agent panicked: boom"])),
          some (.outcome (.skipped .lockHeld)), some (.outcome (.skipped .lockHeld))] := by
  have hnew : new? twoNodes { backing := .memory ∅ } = some _ := rfl
  exact ⟨_, hnew, leavesNoTrace hnew (by decide) trivial, apart_twoNodes.distinct,
    by decide +kernel, by decide +kernel⟩

end Fleet

end Cluster

end EntityCache
