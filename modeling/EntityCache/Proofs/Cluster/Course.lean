import EntityCache.Proofs.Cluster.Steps

/-!
# Flights keep to the protocol

`Outline.Flying` ties the fields of every flight to the phase of its program: it is marked from
`enter` to `leave`, it has a lock from the granted request to the release, and it executes only in
between.  It holds after every act (`Flying.step`), whatever the lock service answers and whichever
flights are abandoned.

A request of a flight is taken apart once: `Served.onCourse` says what it does to the flight itself,
`Served.frame`, `Served.unasked`, `Served.locks` and `Served.resolving` what it does to everything
else.
-/

namespace EntityCache

namespace Cluster

open Firing Function

/-- The fields of a flight at a phase. -/
def Flight.At (own : String → Prop) (f : Flight) : Phase → Prop
  | .outside => f.entered = false ∧ f.lock = none ∧ f.execution = none
  | .inside => f.entered = true ∧ f.lock = none ∧ f.execution = none
  | .holding owner executing =>
    f.entered = true ∧ f.execution.isSome = executing ∧ own owner ∧
      ∃ held, f.lock = some held ∧ held.owner = owner

/-- A flight is at the phase of its program. -/
def Flight.OnCourse (process : String → String) (own : String → String → Prop) (f : Flight) :
    Prop :=
  ∃ name phase, f.node = some name ∧ Follows (process name) (own name) phase f.program ∧
    f.At (own name) phase

/-- A flight stays on course with a lock of the same owner. -/
theorem Flight.OnCourse.beaten {own : String → String → Prop} {process : String → String}
    {f : Flight} {held held' : HeldLock}
    (h : f.OnCourse process own) (hholds : f.lock = some held) (howner : held'.owner = held.owner) :
    ({ f with lock := some held' } : Flight).OnCourse process own := by
  obtain ⟨name, phase, hname, hfollows, hat⟩ := h
  refine ⟨name, phase, hname, hfollows, ?_⟩
  cases phase with
  | outside | inside => simp [hat.2.1] at hholds
  | holding owner executing =>
    obtain ⟨hentered, hexecution, hown, held₁, hlock, rfl⟩ := hat
    obtain rfl : held₁ = held := Option.some.inj (hlock.symm.trans hholds)
    exact ⟨hentered, hexecution, hown, held', rfl, howner⟩

/-- A heartbeat changes neither the name nor the owner of a lock. -/
theorem HeldLock.same_beaten {now due interval : Nat} (held : HeldLock)
    (reply : Except StoreError Bool) :
    (held.beaten now due interval reply).key = held.key ∧
      (held.beaten now due interval reply).owner = held.owner := by
  rcases reply with error | _ | _ <;> exact ⟨rfl, rfl⟩

/-- A heartbeat that fails is the last one. -/
theorem HeldLock.beaten_of_ne {now due interval : Nat} (held : HeldLock)
    {reply : Except StoreError Bool} (h : reply ≠ .ok true) :
    held.beaten now due interval reply = { held with nextBeat := none, lost := true } := by
  rcases reply with error | _ | _
  · rfl
  · rfl
  · exact absurd rfl h

namespace Outline

variable {own : String → String → Prop} {a : Act} {c c' : Outline} {id : Nat} {f f' : Flight}

/-- Every node has a resolver, which finds identities of the node's own. -/
def Resolving (own : String → String → Prop) (c : Outline) : Prop :=
  ∀ name post, c.nodes name = some post →
    ∃ resolver, post.resolver = some resolver ∧ resolver.Own (c.process name) (own name)

/-- Flights have numbers that have been given out, and keep to the protocol. -/
structure Flying (own : String → String → Prop) (c : Outline) : Prop where
  resolving : c.Resolving own
  numbered : ∀ id, c.nextFlight ≤ id → c.flights id = none
  onCourse : ∀ id f, c.flights id = some f → f.OnCourse c.process own

/-! ## One request -/

/-- What the answer of a request leaves of a flight. -/
theorem Served.same {r : Request} {reply : r.Reply} (h : Served id f c r reply f' c') :
    f'.agent = f.agent ∧ f'.node = f.node := by
  cases r with
  | resolve q =>
    obtain ⟨name, post, resolver, resolver', -, -, -, -, rfl, -⟩ := h
    exact ⟨rfl, rfl⟩
  | enter => rcases h with ⟨-, rfl, -⟩ | ⟨-, -, rfl, -⟩ <;> exact ⟨rfl, rfl⟩
  | leave => obtain ⟨rfl, -⟩ := h; exact ⟨rfl, rfl⟩
  | acquire owner =>
    obtain ⟨-, -, hgranted, hrefused⟩ := h
    by_cases hreply : reply = .ok true
    · rw [hgranted hreply]; exact ⟨rfl, rfl⟩
    · rw [hrefused hreply]; exact ⟨rfl, rfl⟩
  | release owner => obtain ⟨rfl, -⟩ := h; exact ⟨rfl, rfl⟩
  | call r => obtain ⟨-, execution, rfl, -⟩ := h; exact ⟨rfl, rfl⟩
  | guarded r => obtain ⟨-, execution, rfl, -⟩ := h; exact ⟨rfl, rfl⟩

/-- An answered request takes a flight from a phase to a phase. -/
theorem Served.onCourse {name : String} {phase : Phase} {r : Request} {reply : r.Reply}
    {next : r.Reply → Steps Ended} (hflying : c.Flying own) (hname : f.node = some name)
    (hfollows : Follows (c.process name) (own name) phase (.ask r next))
    (hat : f.At (own name) phase) (h : Served id f c r reply f' c') :
    ∃ phase', Follows (c.process name) (own name) phase' (next reply) ∧
      f'.At (own name) phase' := by
  cases hfollows with
  | resolve writes rest =>
    obtain ⟨name', post, resolver, resolver', hname', hpost, hresolver, hserve, rfl, -⟩ := h
    obtain rfl : name = name' := Option.some.inj (hname.symm.trans hname')
    obtain ⟨_, hresolver', hown⟩ := hflying.resolving name post hpost
    obtain rfl := Option.some.inj (hresolver.symm.trans hresolver')
    exact ⟨.outside, rest reply (hown.serve writes hserve).2, hat⟩
  | enter refused granted =>
    rcases h with ⟨rfl, rfl, -⟩ | ⟨rfl, -, rfl, -⟩
    · exact ⟨.outside, refused, hat⟩
    · exact ⟨.inside, granted, rfl, hat.2⟩
  | acquire owned granted refused =>
    obtain ⟨-, -, hgranted, hrefused⟩ := h
    by_cases hreply : reply = .ok true
    · rw [hgranted hreply]
      subst hreply
      refine ⟨_, granted, hat.1, ?_, owned, _, rfl, rfl⟩
      simp [hat.2.2]
    · rw [hrefused hreply]
      exact ⟨.inside, refused reply hreply, hat⟩
  | call rest =>
    -- a failure that is reported leaves no execution behind where there was none
    obtain ⟨-, execution, rfl, hexecution⟩ := h
    have hnone : execution = none := by
      rw [hat.2.2] at hexecution
      simpa [AgentRequest.leaves] using hexecution
    exact ⟨.inside, rest reply, hat.1, hat.2.1, hnone⟩
  | leave rest =>
    obtain ⟨rfl, -⟩ := h
    exact ⟨.outside, rest, rfl, hat.2⟩
  | guarded made lost =>
    obtain ⟨-, execution, rfl, ⟨rfl, rfl⟩ | ⟨hreply, hexecution⟩⟩ := h
    · -- the lock has been lost, and the execution with it
      exact ⟨_, lost, hat.1, rfl, hat.2.2⟩
    · obtain ⟨answer, rfl⟩ := Option.isSome_iff_exists.1 hreply
      refine ⟨_, made answer, hat.1, ?_, hat.2.2⟩
      rw [hexecution, hat.2.1]
  | release rest =>
    obtain ⟨rfl, -⟩ := h
    refine ⟨.inside, rest, hat.1, rfl, ?_⟩
    simpa using hat.2.1

/-- What no answer changes. -/
theorem Served.frame {r : Request} {reply : r.Reply} (h : Served id f c r reply f' c') :
    c'.now = c.now ∧ c'.settings = c.settings ∧ c'.process = c.process ∧ c'.flights = c.flights ∧
      c'.nextFlight = c.nextFlight ∧ c'.releases = c.releases := by
  cases r with
  | resolve q =>
    obtain ⟨name, post, resolver, resolver', -, -, -, -, -, rfl⟩ := h
    exact ⟨rfl, rfl, rfl, rfl, rfl, rfl⟩
  | enter => rcases h with ⟨-, -, rfl⟩ | ⟨-, -, -, rfl⟩ <;> exact ⟨rfl, rfl, rfl, rfl, rfl, rfl⟩
  | leave => obtain ⟨-, rfl⟩ := h; exact ⟨rfl, rfl, rfl, rfl, rfl, rfl⟩
  | acquire owner => obtain ⟨-, rfl, -⟩ := h; exact ⟨rfl, rfl, rfl, rfl, rfl, rfl⟩
  | release owner => obtain ⟨-, rfl⟩ := h; exact ⟨rfl, rfl, rfl, rfl, rfl, rfl⟩
  | call r => obtain ⟨rfl, -⟩ := h; exact ⟨rfl, rfl, rfl, rfl, rfl, rfl⟩
  | guarded r => obtain ⟨rfl, -⟩ := h; exact ⟨rfl, rfl, rfl, rfl, rfl, rfl⟩

/-- An answer without the lock service touches neither locks nor the flight's own one. -/
theorem Served.unasked {r : Request} {reply : r.Reply} (h : Served id f c r reply f' c')
    (hnone : c.asked f r = none) : c'.locks = c.locks ∧ f'.lock = f.lock := by
  cases r with
  | resolve q =>
    obtain ⟨name, post, resolver, resolver', -, -, -, -, rfl, rfl⟩ := h
    exact ⟨rfl, rfl⟩
  | enter => rcases h with ⟨-, rfl, rfl⟩ | ⟨-, -, rfl, rfl⟩ <;> exact ⟨rfl, rfl⟩
  | leave => obtain ⟨rfl, rfl⟩ := h; exact ⟨rfl, rfl⟩
  | acquire | release => simp [asked] at hnone
  | call | guarded => obtain ⟨rfl, execution, rfl, -⟩ := h; exact ⟨rfl, rfl⟩

/-- An answer comes from the lock service, if it needs it at all. -/
theorem Served.locks {r : Request} {reply : r.Reply} (h : Served id f c r reply f' c') :
    c'.locks = c.locks ∨
      ∃ q, c.asked f r = some q ∧ c'.locks = (c.locks.serve c.now q).2 := by
  cases r with
  | acquire => obtain ⟨-, rfl, -⟩ := h; exact .inr ⟨_, rfl, rfl⟩
  | release => obtain ⟨-, rfl⟩ := h; exact .inr ⟨_, rfl, rfl⟩
  | resolve | enter | leave | call | guarded => exact .inl (h.unasked rfl).1

/-- An act makes its request to the lock service, or none. -/
theorem Step.locks (h : Step a c c') :
    c'.locks = c.locks ∨ ∃ q, c.request? a = some q ∧ c'.locks = (c.locks.serve c.now q).2 := by
  cases h with
  | rest | launch | land | abandon => exact .inl rfl
  | resume flies asks served =>
    rcases served.locks with heq | ⟨q, hq, heq⟩
    · exact .inl heq
    · exact .inr ⟨q, by simp [request?, flies, asks, hq], heq⟩
  | beat flies holds beats reached =>
    exact .inr ⟨_, by simp [request?, flies, holds, beats, reached], rfl⟩
  | release left => exact .inr ⟨_, by simp [request?, left], rfl⟩

/-- No act changes the settings. -/
theorem Step.settings (h : Step a c c') : c'.settings = c.settings := by
  cases h with
  | rest | launch | land | beat | release | abandon => rfl
  | resume flies asks served =>
    obtain ⟨-, hsettings, -⟩ := served.frame
    exact hsettings

/-- A change of a node that keeps its resolver good. -/
theorem Resolving.amend (h : c.Resolving own) {place : Option String} {g : Post → Post}
    (hg : ∀ name post resolver, place = some name → c.nodes name = some post →
      post.resolver = some resolver → resolver.Own (c.process name) (own name) →
        ∃ resolver', (g post).resolver = some resolver' ∧
          resolver'.Own (c.process name) (own name)) :
    (c.amend place g).Resolving own := by
  intro name post hpost
  by_cases hplace : place = some name
  · -- the node is the one that is changed
    simp only [Outline.amend, hplace, if_true, Option.map_eq_some_iff] at hpost
    obtain ⟨post, hpost, rfl⟩ := hpost
    obtain ⟨resolver, hresolver, hown⟩ := h name post hpost
    exact hg name post resolver hplace hpost hresolver hown
  · simp only [Outline.amend, hplace, if_false] at hpost
    exact h name post hpost

/-- Marks do not touch resolvers. -/
theorem Resolving.mark (h : c.Resolving own) (place : Option String) (agent : String)
    (active : Bool) : (c.amend place (Post.mark agent active)).Resolving own :=
  h.amend fun _ _ resolver _ _ hresolver hown => ⟨resolver, hresolver, hown⟩

/-- A flight that looks its owner up gets the one of its process, also when a failed lookup is made
again. -/
theorem Served.resolving {name : String} {phase : Phase} {r : Request} {reply : r.Reply}
    {next : r.Reply → Steps Ended} (hresolving : c.Resolving own)
    (hfollows : Follows (c.process name) (own name) phase (.ask r next))
    (hname : f.node = some name) (h : Served id f c r reply f' c') : c'.Resolving own := by
  cases hfollows with
  | resolve writes rest =>
    obtain ⟨name', post, resolver, resolver', hname', hpost, hresolver, hserve, -, rfl⟩ := h
    obtain rfl : name = name' := Option.some.inj (hname.symm.trans hname')
    apply hresolving.amend
    intro other post' _ hplace hpost' hsome hown
    -- the flight's node is the one whose resolver has answered
    obtain rfl : name = other := Option.some.inj (hname.symm.trans hplace)
    obtain rfl : post = post' := Option.some.inj (hpost.symm.trans hpost')
    obtain rfl := Option.some.inj (hresolver.symm.trans hsome)
    exact ⟨resolver', rfl, (hown.serve writes hserve).1⟩
  | enter =>
    rcases h with ⟨-, -, rfl⟩ | ⟨-, -, -, rfl⟩
    · exact hresolving
    · exact hresolving.mark _ _ _
  | acquire => obtain ⟨-, rfl, -⟩ := h; exact hresolving
  | call => obtain ⟨rfl, -⟩ := h; exact hresolving
  | leave => obtain ⟨-, rfl⟩ := h; exact hresolving.mark _ _ _
  | guarded => obtain ⟨rfl, -⟩ := h; exact hresolving
  | release => obtain ⟨-, rfl⟩ := h; exact hresolving

/-! ## Every act -/

/-- A flight that is put in the place of another one keeps the others on course. -/
theorem Flying.put (h : c.Flying own) {f : Option Flight} (hnumber : id < c.nextFlight)
    (hf : ∀ g, f = some g → g.OnCourse c.process own) : (c.put id f).Flying own := by
  refine ⟨h.resolving, ?_, ?_⟩
  · intro other hother
    have hne : other ≠ id := by
      have : c.nextFlight ≤ other := hother
      omega
    simpa [Outline.put, hne] using h.numbered other hother
  · intro other g hg
    by_cases heq : other = id
    · subst heq
      exact hf g (by simpa [Outline.put] using hg)
    · exact h.onCourse other g (by simpa [Outline.put, heq] using hg)

/-- Flights are numbered in the order in which they start. -/
theorem Flying.lt_nextFlight (h : c.Flying own) (hflies : c.flights id = some f) :
    id < c.nextFlight := by
  by_contra hle
  have := h.numbered id (Nat.le_of_not_lt hle)
  simp [this] at hflies

/-- A flight that takes off is at the start of its program. -/
theorem Flying.launch (h : c.Flying own) {name agent : String} {post : Post}
    (hpost : c.nodes name = some post) (job : Nat) (task : Option Nat) :
    (c.launch { agent, job, node := some name, task, program := c.firing agent name }).Flying
      own := by
  have hfiring : c.firing agent name = guarded (c.process name) agent := by
    obtain ⟨resolver, hresolver, -⟩ := h.resolving name post hpost
    exact if_pos ⟨post, hpost, by simp [hresolver]⟩
  have hmore : ({ c with nextFlight := c.nextFlight + 1 } : Outline).Flying own :=
    ⟨h.resolving, fun id hid => h.numbered id (Nat.le_of_succ_le hid), h.onCourse⟩
  have hnumber : c.nextFlight < ({ c with nextFlight := c.nextFlight + 1 } : Outline).nextFlight :=
    Nat.lt_succ_self _
  apply hmore.put hnumber
  intro g hg
  obtain rfl := Option.some.inj hg
  refine ⟨name, .outside, rfl, ?_, rfl, rfl, rfl⟩
  rw [hfiring]
  exact follows_guarded (c.process name) agent (own name)

/-- A flight goes on with its program. -/
theorem Flying.resume (h : c.Flying own) (hflies : c.flights id = some f) {r : Request}
    {next : r.Reply → Steps Ended} {reply : r.Reply} (hasks : f.program = .ask r next)
    (hserved : Served id f c r reply f' c') :
    (c'.put id (some { f' with program := next reply })).Flying own := by
  obtain ⟨name, phase, hname, hfollows, hat⟩ := h.onCourse id f hflies
  rw [hasks] at hfollows
  obtain ⟨-, -, hprocess, hflights, hnext, -⟩ := hserved.frame
  -- the flights that are not resumed are as they were, whatever was served
  have hothers : c'.Flying own := by
    refine ⟨hserved.resolving h.resolving hfollows hname, ?_, ?_⟩
    · intro id hid
      rw [hflights]
      exact h.numbered id (hnext ▸ hid)
    · intro id g hg
      rw [hprocess]
      exact h.onCourse id g (hflights ▸ hg)
  apply hothers.put (hnext ▸ h.lt_nextFlight hflies)
  intro g hg
  obtain rfl := Option.some.inj hg
  obtain ⟨phase', hfollows', hat'⟩ := hserved.onCourse h hname hfollows hat
  rw [hprocess]
  exact ⟨name, phase', hserved.same.2.trans hname, hfollows', hat'⟩

/-- Flights keep to the protocol, whatever happens. -/
theorem Flying.step (h : c.Flying own) (hstep : Step a c c') : c'.Flying own := by
  -- only a step of the flight itself changes where it is; a heartbeat changes its lock only
  cases hstep with
  | rest => exact ⟨h.resolving, h.numbered, h.onCourse⟩
  | launch node => exact h.launch node _ _
  | land flies done => exact h.put (h.lt_nextFlight flies) fun g hg => by simp at hg
  | resume flies asks served => exact h.resume flies asks served
  | @beat _ id f held _ _ flies holds beats reached answered =>
    have hasked : (c.ask (c.heartbeat f held)).Flying own := ⟨h.resolving, h.numbered, h.onCourse⟩
    apply hasked.put (h.lt_nextFlight flies)
    intro g hg
    obtain rfl := Option.some.inj hg
    exact Flight.OnCourse.beaten (h.onCourse id f flies) holds (held.same_beaten _).2
  | release left => exact ⟨h.resolving, h.numbered, h.onCourse⟩
  | @abandon _ id f flies =>
    have hresolving : (c.amend f.node (Post.leave id f)).Resolving own := by
      apply h.resolving.amend
      intro name post resolver _ _ hresolver hown
      refine ⟨resolver.abandon id, ?_, hown.abandon id⟩
      unfold Post.leave
      split <;> simp [Post.giveUp, Post.mark, hresolver]
    have hleft : (c.amend f.node (Post.leave id f)).Flying own :=
      ⟨hresolving, h.numbered, h.onCourse⟩
    have hgone : ((c.amend f.node (Post.leave id f)).put id none).Flying own :=
      hleft.put (h.lt_nextFlight flies) fun g hg => by simp at hg
    exact ⟨hgone.resolving, hgone.numbered, hgone.onCourse⟩

end Outline

end Cluster

end EntityCache
