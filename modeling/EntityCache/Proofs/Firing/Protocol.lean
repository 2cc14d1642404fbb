import EntityCache.Firing.Guarded

/-!
# The protocol of a firing under a lock

Between any two of its requests a firing is in a `Phase`: it has not marked its agent or has taken
the mark back, it has marked it, or it also holds the agent's lock.  `Follows` says that the rest of
a program keeps to the phases: a lock is taken only behind the mark and under an owner token of the
node's own, executions happen only while it is held, and the mark outlives it.

`follows_guarded` is the one place that looks at the program of a firing.
-/

namespace EntityCache

/-! ## Identities of one node -/

namespace Identity

variable {process : String} {own : String → Prop}

/-- A valid identity has one of the given values. -/
def Own (own : String → Prop) (identity : Identity) : Prop :=
  identity.valid = true → own identity.value

/-- What a request to the resolver may be answered: cached identities are valid and of the given
values, and so are the ones that are made of what a probe finds. -/
def Request.Answered (process : String) (own : String → Prop) : (q : Request) → q.Reply → Prop
  | readCache, reply => ∀ identity, reply = some identity → identity.Own own
  | endProbe, host => (ofHost process host).Own own
  | _, _ => True

/-- A request puts no foreign identity into the cache. -/
def Request.Writes (own : String → Prop) : Request → Prop
  | write identity => identity.Own own
  | _ => True

end Identity

namespace Resolver

variable {process : String} {own : String → Prop} {r r' : Resolver} {now caller : Nat}

/-- What a resolver has found or will find are owner tokens of the given values. -/
structure Own (process : String) (own : String → Prop) (r : Resolver) : Prop where
  results : ∀ result ∈ r.results, (Identity.ofHost process result.host).Own own
  cached : ∀ c, r.cached = some c → c.identity.Own own
  pending : ∀ host due, r.pending = some (host, due) → (Identity.ofHost process host).Own own

/-- Without a host the identity is none that another process could own. -/
theorem own_none (process : String) (own : String → Prop) :
    (Identity.ofHost process none).Own own := fun h => by simp [Identity.ofHost] at h

/-- The next lookup gives a host of the process. -/
theorem Own.nextResult (h : r.Own process own) :
    (Identity.ofHost process r.nextResult.host).Own own := by
  unfold Resolver.nextResult
  cases hnext : (r.results[r.probes]? <|> r.results.getLast?) with
  | none => exact own_none process own
  | some result =>
    apply h.results
    rcases hat : r.results[r.probes]? with _ | found
    · rw [hat] at hnext
      exact List.mem_of_getLast? hnext
    · rw [hat] at hnext
      obtain rfl : found = result := by simpa using hnext
      exact List.mem_of_getElem? hat

/-- A resolver answers with identities of its own and goes on having no others. -/
theorem Own.serve (h : r.Own process own) {q : Identity.Request} (hq : q.Writes own)
    {reply : q.Reply} (hserve : r.serve now caller q = some (reply, r')) :
    r'.Own process own ∧ q.Answered process own reply := by
  -- hosts enter the resolver with a probe, pass to the caller that ends it, and come back with its
  -- write
  cases q with
  | readCache =>
    obtain ⟨rfl, rfl⟩ : r.fresh? now = reply ∧ r = r' := by simpa [Resolver.serve] using hserve
    refine ⟨h, fun identity hfresh => ?_⟩
    unfold fresh? at hfresh
    cases hcached : r.cached with
    | none => simp [hcached] at hfresh
    | some c =>
      simp only [hcached, Option.ite_none_right_eq_some, Option.some.injEq] at hfresh
      exact hfresh.2 ▸ h.cached c hcached
  | takeLock =>
    unfold Resolver.serve at hserve
    cases hholder : r.holder with
    | none =>
      obtain rfl : { r with holder := some caller } = r' := by simpa [hholder] using hserve
      exact ⟨⟨h.results, h.cached, h.pending⟩, trivial⟩
    | some other => simp [hholder] at hserve
  | startProbe =>
    obtain rfl : _ = r' := (Prod.mk.inj (Option.some.inj hserve)).2
    refine ⟨⟨h.results, h.cached, fun host due hpending => ?_⟩, trivial⟩
    obtain ⟨rfl, -⟩ := Prod.mk.inj (Option.some.inj hpending)
    exact h.nextResult
  | endProbe =>
    unfold Resolver.serve at hserve
    rcases hpending : r.pending with _ | ⟨host, due⟩
    · obtain ⟨rfl, rfl⟩ : none = reply ∧ r = r' := by simpa [hpending] using hserve
      exact ⟨h, own_none process own⟩
    · simp only [hpending, Option.ite_none_right_eq_some, Option.some.injEq, Prod.mk.injEq]
        at hserve
      obtain ⟨-, rfl, rfl⟩ := hserve
      exact ⟨⟨h.results, h.cached, by simp⟩, h.pending host due hpending⟩
  | write identity =>
    obtain rfl : _ = r' := (Prod.mk.inj (Option.some.inj hserve)).2
    refine ⟨⟨h.results, fun c hcached => ?_, h.pending⟩, trivial⟩
    obtain rfl := Option.some.inj hcached
    exact hq
  | unlock =>
    obtain rfl : _ = r' := (Prod.mk.inj (Option.some.inj hserve)).2
    exact ⟨⟨h.results, h.cached, h.pending⟩, trivial⟩

/-- A caller that gives up leaves the identities of the process as they are. -/
theorem Own.abandon (h : r.Own process own) (caller : Nat) :
    (Resolver.abandon caller r).Own process own := by
  unfold Resolver.abandon
  split
  · exact ⟨h.results, h.cached, by simp⟩
  · exact h

end Resolver

/-! ## Phases -/

namespace Firing

/-- Where a firing stands between two requests. -/
inductive Phase where
  /-- Its agent is not marked, not yet or not any more. -/
  | outside
  /-- Its agent is marked as active. -/
  | inside
  /-- It also holds the lock, as an owner; it may have begun to execute. -/
  | holding (owner : String) (executing : Bool)

/-- Whether an execution is under way after a call, if one was under way before. -/
def AgentRequest.leaves : AgentRequest → Bool → Bool
  | execute, _ => true
  | finish, _ => false
  | _, executing => executing

/-- The rest of a firing keeps to the protocol from a phase on, whatever it is answered. -/
inductive Follows (process : String) (own : String → Prop) : Phase → Steps Ended → Prop where
  | done {ended : Ended} : Follows process own .outside (.done ended)
  | resolve {q : Identity.Request} {next : q.Reply → Steps Ended} (writes : q.Writes own)
      (rest : ∀ reply, q.Answered process own reply → Follows process own .outside (next reply)) :
      Follows process own .outside (.ask (.resolve q) next)
  | enter {next : Bool → Steps Ended} (refused : Follows process own .outside (next false))
      (granted : Follows process own .inside (next true)) :
      Follows process own .outside (.ask .enter next)
  | acquire {owner : String} {next : Except StoreError Bool → Steps Ended} (owned : own owner)
      (granted : Follows process own (.holding owner false) (next (.ok true)))
      (refused : ∀ reply, reply ≠ .ok true → Follows process own .inside (next reply)) :
      Follows process own .inside (.ask (.acquire owner) next)
  | call {error : ErrorChain} {next : Reaction String → Steps Ended}
      (rest : ∀ reply, Follows process own .inside (next reply)) :
      Follows process own .inside (.ask (.call (.failed error)) next)
  | leave {next : Unit → Steps Ended} (rest : Follows process own .outside (next ())) :
      Follows process own .inside (.ask .leave next)
  | guarded {owner : String} {executing : Bool} {r : AgentRequest}
      {next : Option r.Reply → Steps Ended}
      (made : ∀ reply,
        Follows process own (.holding owner (r.leaves executing)) (next (some reply)))
      (lost : Follows process own (.holding owner false) (next none)) :
      Follows process own (.holding owner executing) (.ask (.guarded r) next)
  | release {owner : String} {next : Unit → Steps Ended}
      (rest : Follows process own .inside (next ())) :
      Follows process own (.holding owner false) (.ask (.release owner) next)

variable {process : String} {own : String → Prop}

/-- To leave asks nothing of the lock. -/
theorem follows_leaving (ended : Ended) : Follows process own .inside (leaving ended) :=
  .leave .done

/-- A guarded call at the front of an attempt. -/
theorem follows_whileHeld {lost : ErrorChain} {r : AgentRequest} {owner : String} {executing : Bool}
    {next : r.Reply → Program AgentRequest AgentRequest.Reply (Except ErrorChain Unit)}
    {after : Except ErrorChain Unit → Steps Ended}
    (made : ∀ reply, Follows process own (.holding owner (r.leaves executing))
      ((whileHeld lost (next reply)).bind after))
    (given_up : Follows process own (.holding owner false) (after (.error lost))) :
    Follows process own (.holding owner executing) ((whileHeld lost (.ask r next)).bind after) := by
  rw [whileHeld, Program.bind]
  exact .guarded made given_up

/-- An attempt under a lock executes only between two of its calls. -/
theorem follows_attempt (agent owner : String) {lost : ErrorChain}
    {after : Except ErrorChain Unit → Steps Ended}
    (hafter : ∀ result, Follows process own (.holding owner false) (after result)) :
    Follows process own (.holding owner false) ((whileHeld lost (attempt agent)).bind after) := by
  refine follows_whileHeld (fun reply => ?started) (hafter _)
  cases reply with
  | fails | panics => exact hafter _
  | ok =>
    refine follows_whileHeld (fun _ => ?execute) (hafter _)
    refine follows_whileHeld (fun reply => ?finish) (hafter _)
    cases reply with
    | fails | panics => exact hafter _
    | ok =>
      refine follows_whileHeld (fun reply => ?completed) (hafter _)
      cases reply with
      | fails | panics | ok => exact hafter _

/-- After the attempt the lock is released, and only then a failure is reported. -/
theorem follows_holding (agent owner : String) :
    Follows process own (.holding owner false) (holding agent owner) := by
  refine follows_attempt agent owner fun result => .release ?_
  cases result with
  | ok => exact follows_leaving _
  | error error => exact .call fun answer => follows_leaving _

/-- A firing whose identity is known. -/
theorem follows_entering (agent : String) {identity : Identity} (h : identity.Own own) :
    Follows process own .outside (entering agent identity) := by
  unfold entering
  split
  case isTrue => exact .done
  case isFalse hvalid =>
    have howned : own identity.value := h (by simpa using hvalid)
    refine .enter .done (.acquire howned (follows_holding agent _) fun reply hreply => ?_)
    rcases reply with error | granted
    · exact follows_leaving _
    · cases granted with
      | false => exact follows_leaving _
      | true => exact absurd rfl hreply

/-- A firing keeps to the protocol. -/
theorem follows_guarded (process agent : String) (own : String → Prop) :
    Follows process own .outside (guarded process agent) := by
  have hentering {identity : Identity} (h : identity.Own own) :
      Follows process own .outside (entering agent identity) := follows_entering agent h
  refine .resolve trivial fun cached hcached => ?first
  cases cached with
  | some identity => exact hentering (hcached identity rfl)
  | none =>
    refine .resolve trivial fun _ _ => .resolve trivial fun cached hcached => ?second
    cases cached with
    | some identity => exact .resolve trivial fun _ _ => hentering (hcached identity rfl)
    | none =>
      refine .resolve trivial fun _ _ => .resolve trivial fun host hhost => ?probed
      exact .resolve hhost fun _ _ => .resolve trivial fun _ _ => hentering hhost

end Firing

end EntityCache
