import EntityCache.Identity.Callers
import EntityCache.Proofs.Exchanges
import Mathlib.Data.List.Induction

/-!
# Callers that share one cached identity

Callers arrive one after another, make their requests in any order, and time passes in between.  The
history of this is a list of entries, each an exchange of a caller with the resolver and the moment
at which it was made.  `caching_of_run` says what every such history is like: when probes are sent
out, what is served from the cache, and what a probe leaves there.

What a caller has exchanged so far says where it is in its program (`Asks`, `Ends`), so the
invariant speaks of histories alone.  It rests on the lock.  A caller holds it from its request for
it until it gives it up, everything from the second look at the cache to the write lies in between,
and so nobody else writes the cache or has a probe out in the meantime.
-/

namespace EntityCache

namespace Identity

/-! ## Runs -/

/-- What can happen next. -/
inductive Event where
  /-- One more caller asks for the identity. -/
  | arrive
  /-- A caller makes its next request, unless that has to wait. -/
  | step (caller : Nat)
  /-- The clock moves on. -/
  | pass (ms : Nat)

/-- An exchange of a caller with the resolver. -/
structure Entry where
  time : Nat
  caller : Nat
  exchange : Exchange Request.Reply

namespace Callers

variable (process : String)

/-- What an event makes of callers. -/
def next (s : Callers) : Event → Callers
  | .arrive => { s with callers := s.callers ++ [resolve process] }
  | .step caller => s.step caller
  | .pass ms => s.pass ms

/-- The exchange that an event brings about, if it brings one about. -/
def logged? (s : Callers) : Event → Option Entry
  | .step caller =>
    match s.callers[caller]? with
    | some (.ask q _) =>
      (s.resolver.serve s.now caller q).map fun answer => ⟨s.now, caller, ⟨q, answer.1⟩⟩
    | _ => none
  | _ => none

/-- Events one after another. -/
def run (s : Callers) (events : List Event) : Callers := events.foldl (next process) s

/-- The exchanges that events bring about, in order. -/
def history : Callers → List Event → List Entry
  | _, [] => []
  | s, e :: events => (s.logged? e).toList ++ history (s.next process e) events

variable {process} {s : Callers}

/-- One event more at the end of a run. -/
theorem run_concat (events : List Event) (e : Event) :
    s.run process (events ++ [e]) = (s.run process events).next process e :=
  List.foldl_append

/-- One event more adds at most one entry to the history. -/
theorem history_concat (events : List Event) (e : Event) :
    s.history process (events ++ [e]) =
      s.history process events ++ ((s.run process events).logged? e).toList := by
  induction events generalizing s with
  | nil => simp [history, run]
  | cons first events ih =>
    rw [List.cons_append, history, history, ih, List.append_assoc]
    rfl

/-- A step is an exchange of the caller with the resolver, or nothing happens. -/
theorem step_cases (i : Nat) :
    (s.step i = s ∧ s.logged? (.step i) = none) ∨
      ∃ q next reply resolver, s.callers[i]? = some (.ask q next) ∧
        s.resolver.serve s.now i q = some (reply, resolver) ∧
        s.step i = { s with resolver, callers := s.callers.set i (next reply) } ∧
        s.logged? (.step i) = some ⟨s.now, i, ⟨q, reply⟩⟩ := by
  rw [step, logged?]
  cases hcaller : s.callers[i]? with
  | none => exact .inl ⟨rfl, rfl⟩
  | some p =>
    cases p with
    | done identity => exact .inl ⟨rfl, rfl⟩
    | ask q next =>
      -- a caller is served or waits for the lock of the resolver
      cases hserve : s.resolver.serve s.now i q with
      | none => exact .inl ⟨by simp only [hserve], by simp only [hserve, Option.map_none]⟩
      | some answer =>
        refine .inr ⟨q, next, answer.1, answer.2, rfl, hserve, ?_, ?_⟩
        · simp only [hserve]
        · simp only [hserve, Option.map_some]

end Callers

/-! ## What a history says -/

/-- The exchanges of one caller. -/
def own (caller : Nat) (h : List Entry) : List (Exchange Request.Reply) :=
  h.filterMap fun e => if e.caller = caller then some e.exchange else none

/-- What an entry puts into the cache. -/
def Entry.write? (e : Entry) : Option CachedIdentity :=
  match e.exchange with
  | ⟨.write identity, _⟩ => some ⟨identity, e.time⟩
  | _ => none

/-- What was put into the cache last. -/
def written (h : List Entry) : Option CachedIdentity :=
  h.foldl (fun cached e => e.write?.or cached) none

/-- The callers whose probe is out. -/
def probing (h : List Entry) : List Nat :=
  h.foldl (fun out e =>
    match e.exchange with
    | ⟨.startProbe, _⟩ => e.caller :: out
    | ⟨.endProbe, _⟩ => out.erase e.caller
    | _ => out) []

section History

variable {h : List Entry} {e : Entry} {i : Nat} {x : Exchange Request.Reply}

/-- An entry of a caller is the last of its own. -/
theorem own_concat_self (h : List Entry) (t i : Nat) (x : Exchange Request.Reply) :
    own i (h ++ [⟨t, i, x⟩]) = own i h ++ [x] := by
  simp [own]

/-- An entry of another caller is none of its own. -/
theorem own_concat_of_ne (h : List Entry) (hne : e.caller ≠ i) : own i (h ++ [e]) = own i h := by
  simp [own, hne]

/-- The own exchanges of a caller are those of its entries. -/
theorem mem_own : x ∈ own i h ↔ ∃ e ∈ h, e.caller = i ∧ e.exchange = x := by
  simp [own]

/-- The last write to the cache decides what it holds. -/
theorem written_concat (h : List Entry) (e : Entry) :
    written (h ++ [e]) = e.write?.or (written h) :=
  List.foldl_append

end History

/-! ## Where a caller is -/

section Places

variable (process : String)

/-- What is left once the lock is to be given up. -/
def leave (identity : Identity) : Caller := .ask .unlock fun _ => .done identity

/-- What is left once the probe has come back. -/
def store (host : Option String) : Caller :=
  .ask (.write (ofHost process host)) fun _ => leave (ofHost process host)

/-- What is left once the cache has been looked at under the lock. -/
def checked : Option Identity → Caller
  | some identity => leave identity
  | none => .ask .startProbe fun _ => .ask .endProbe (store process)

/-- What is left once the cache has been looked at for the first time. -/
def looked : Option Identity → Caller
  | some identity => .done identity
  | none => .ask .takeLock fun _ => .ask .readCache (checked process)

/-- A lookup begins with a look into the cache. -/
theorem resolve_eq : resolve process = .ask .readCache (looked process) := rfl

/-- What a caller has exchanged, and what it has left to do. -/
inductive Place : List (Exchange Request.Reply) → Caller → Prop
  | looks : Place [] (.ask .readCache (looked process))
  | served (identity : Identity) : Place [⟨.readCache, some identity⟩] (.done identity)
  | waits : Place [⟨.readCache, none⟩] (.ask .takeLock fun _ => .ask .readCache (checked process))
  | checks : Place [⟨.readCache, none⟩, ⟨.takeLock, ()⟩] (.ask .readCache (checked process))
  | relieved (identity : Identity) :
    Place [⟨.readCache, none⟩, ⟨.takeLock, ()⟩, ⟨.readCache, some identity⟩]
      (.ask .unlock fun _ => .done identity)
  | servedLate (identity : Identity) :
    Place [⟨.readCache, none⟩, ⟨.takeLock, ()⟩, ⟨.readCache, some identity⟩, ⟨.unlock, ()⟩]
      (.done identity)
  | starts : Place [⟨.readCache, none⟩, ⟨.takeLock, ()⟩, ⟨.readCache, none⟩]
      (.ask .startProbe fun _ => .ask .endProbe (store process))
  | probes : Place [⟨.readCache, none⟩, ⟨.takeLock, ()⟩, ⟨.readCache, none⟩, ⟨.startProbe, ()⟩]
      (.ask .endProbe (store process))
  | writes (host : Option String) :
    Place [⟨.readCache, none⟩, ⟨.takeLock, ()⟩, ⟨.readCache, none⟩, ⟨.startProbe, ()⟩,
      ⟨.endProbe, host⟩] (.ask (.write (ofHost process host)) fun _ => leave (ofHost process host))
  | leaves (host : Option String) :
    Place [⟨.readCache, none⟩, ⟨.takeLock, ()⟩, ⟨.readCache, none⟩, ⟨.startProbe, ()⟩,
      ⟨.endProbe, host⟩, ⟨.write (ofHost process host), ()⟩]
      (.ask .unlock fun _ => .done (ofHost process host))
  | resolved (host : Option String) :
    Place [⟨.readCache, none⟩, ⟨.takeLock, ()⟩, ⟨.readCache, none⟩, ⟨.startProbe, ()⟩,
      ⟨.endProbe, host⟩, ⟨.write (ofHost process host), ()⟩, ⟨.unlock, ()⟩]
      (.done (ofHost process host))

variable {process}

/-- A caller whose request is answered comes to its next place. -/
theorem Place.next {xs : List (Exchange Request.Reply)} {q : Request} {next : q.Reply → Caller}
    (h : Place process xs (.ask q next)) (reply : q.Reply) :
    Place process (xs ++ [⟨q, reply⟩]) (next reply) := by
  -- what a caller asks next is decided by what it has asked so far and by the last reply
  cases h with
  | looks =>
    cases reply with
    | some identity => exact .served identity
    | none => exact .waits
  | waits => exact .checks
  | checks =>
    cases reply with
    | some identity => exact .relieved identity
    | none => exact .starts
  | relieved identity => exact .servedLate identity
  | starts => exact .probes
  | probes => exact .writes reply
  | writes host => exact .leaves host
  | leaves host => exact .resolved host

end Places

/-! ## The resolver under its callers -/

/-- The caller has taken the lock and not given it up. -/
def Holding (xs : List (Exchange Request.Reply)) : Prop :=
  ⟨.takeLock, ()⟩ ∈ xs ∧ ⟨.unlock, ()⟩ ∉ xs

/-- The caller has sent a probe out, and it has not come back. -/
def Probing (xs : List (Exchange Request.Reply)) : Prop :=
  ⟨.startProbe, ()⟩ ∈ xs ∧ ∀ host, ⟨.endProbe, host⟩ ∉ xs

/-- Who holds the lock after a request of a caller has been answered. -/
def holderAfter (caller : Nat) : Request → Option Nat → Option Nat
  | .takeLock, _ => some caller
  | .unlock, _ => none
  | _, holder => holder

section Requests

variable {process : String} {xs : List (Exchange Request.Reply)} {q : Request} {reply : q.Reply}
  {next : q.Reply → Caller} {p : Caller} {r r' : Resolver} {now i : Nat}

/-- Whoever probes holds the lock. -/
theorem Place.holding_of_probing (h : Place process xs p) (hprobing : Probing xs) : Holding xs := by
  cases h <;> simp_all [Probing, Holding]

/-- What a request changes, and when it is answered. -/
theorem serve_eq_some (h : r.serve now i q = some (reply, r')) :
    r'.refresh = r.refresh ∧ r'.cached = (Entry.write? ⟨now, i, ⟨q, reply⟩⟩).or r.cached ∧
      r'.holder = holderAfter i q r.holder ∧ (q = .takeLock → r.holder = none) := by
  -- only a write changes what is cached, and only the lock changes its holder
  cases q with
  | readCache | startProbe | write | unlock =>
    cases h
    exact ⟨rfl, rfl, rfl, nofun⟩
  | takeLock =>
    cases hholder : r.holder with
    | some j => simp [Resolver.serve, hholder] at h
    | none =>
      simp only [Resolver.serve, hholder] at h
      cases h
      exact ⟨rfl, rfl, rfl, fun _ => rfl⟩
  | endProbe =>
    cases hpending : r.pending with
    | none =>
      simp only [Resolver.serve, hpending] at h
      cases h
      exact ⟨rfl, rfl, rfl, nofun⟩
    | some out =>
      simp only [Resolver.serve, hpending] at h
      split at h
      · cases h
        exact ⟨rfl, rfl, rfl, nofun⟩
      · cases h

end Requests

/-- What the resolver and its callers have to do with the history that has led to them. -/
structure Invariant (process : String) (refresh : Nat) (s : Callers) (h : List Entry) : Prop where
  refresh : s.resolver.refresh = refresh
  place : ∀ i p, s.callers[i]? = some p → Place process (own i h) p
  absent : ∀ i, s.callers[i]? = none → own i h = []
  holder : ∀ i, s.resolver.holder = some i ↔ Holding (own i h)
  cached : s.resolver.cached = written h
  past : ∀ c, written h = some c → c.computedAt ≤ s.now
  -- whoever has found nothing fresh under the lock still would, until it has written
  stale : ∀ i, own i h = [⟨.readCache, none⟩, ⟨.takeLock, ()⟩, ⟨.readCache, none⟩] →
    s.resolver.fresh? s.now = none
  out : ∀ i, i ∈ probing h ↔ Probing (own i h)
  single : (probing h).length ≤ 1

/-- An entry is what it should be after a history: a probe is sent out only if nothing fresh was
written last, a look at the cache is answered with what was written last if that is fresh, and a
caller writes what its own probe has found. -/
structure Entry.Sound (process : String) (refresh : Nat) (before : List Entry) (e : Entry) :
    Prop where
  probe : e.exchange = ⟨.startProbe, ()⟩ → ∀ c, written before = some c →
    c.identity.valid = true → c.computedAt + refresh ≤ e.time
  look : ∀ reply, e.exchange = ⟨.readCache, reply⟩ → ∀ identity, reply = some identity ↔
    ∃ c, written before = some c ∧ c.identity = identity ∧ identity.valid = true ∧
      c.computedAt ≤ e.time ∧ e.time < c.computedAt + refresh
  write : ∀ identity, e.exchange = ⟨.write identity, ()⟩ →
    ∃ host, ⟨.endProbe, host⟩ ∈ own e.caller before ∧ identity = ofHost process host

section Preservation

variable {process : String} {refresh : Nat} {s : Callers} {h : List Entry}

/-- What is served from the cache is what was written last, if it is valid and young enough. -/
theorem Invariant.fresh?_eq_some (inv : Invariant process refresh s h) (identity : Identity) :
    s.resolver.fresh? s.now = some identity ↔
      ∃ c, written h = some c ∧ c.identity = identity ∧ identity.valid = true ∧
        c.computedAt ≤ s.now ∧ s.now < c.computedAt + refresh := by
  have hpast := inv.past
  rw [Resolver.fresh?, inv.cached, inv.refresh]
  cases hwritten : written h with
  | none => simp
  | some c =>
    have hle := hpast c hwritten
    have hage : s.now - c.computedAt < refresh ↔ s.now < c.computedAt + refresh := by omega
    simp only [hage, Option.some.injEq, exists_eq_left', Option.ite_none_right_eq_some]
    constructor
    · rintro ⟨⟨hvalid, hlt⟩, rfl⟩
      exact ⟨rfl, hvalid, hle, hlt⟩
    · rintro ⟨rfl, hvalid, -, hlt⟩
      exact ⟨⟨hvalid, hlt⟩, rfl⟩

/-- The clock does not make anything fresh. -/
theorem fresh?_none_mono {r : Resolver} {now later : Nat} (hle : now ≤ later)
    (hnone : r.fresh? now = none) : r.fresh? later = none := by
  unfold Resolver.fresh? at hnone ⊢
  split at hnone
  case h_1 c hc =>
    simp only [ite_eq_right_iff, reduceCtorEq, imp_false, not_and] at hnone ⊢
    intro hvalid
    have := hnone hvalid
    omega
  case h_2 => rfl

/-- Before the first event there is nothing to be wrong about. -/
theorem invariant_new (process : String) (refresh : Nat) (results : List ProbeResult)
    (start : Nat) :
    Invariant process refresh { resolver := { refresh, results }, now := start } [] where
  refresh := rfl
  place _ _ h := by simp at h
  absent _ _ := rfl
  holder _ := by simp [own, Holding]
  cached := rfl
  past _ h := by simp [written] at h
  stale _ h := by simp [own] at h
  out _ := by simp [probing, own, Probing]
  single := by simp [probing]

/-- A caller that arrives keeps the invariant: it has made no exchange. -/
theorem Invariant.arrive (inv : Invariant process refresh s h) :
    Invariant process refresh (s.next process .arrive) h where
  refresh := inv.refresh
  place i p hp := by
    simp only [Callers.next] at hp
    by_cases hi : i < s.callers.length
    · rw [List.getElem?_append_left hi] at hp
      exact inv.place i p hp
    -- the new caller has made no exchange, so it is about to look
    · rw [List.getElem?_append_right (Nat.le_of_not_lt hi), List.getElem?_singleton] at hp
      rw [inv.absent i (List.getElem?_eq_none (Nat.le_of_not_lt hi))]
      split at hp
      · cases hp
        rw [resolve_eq]
        exact .looks
      · cases hp
  absent i hi := by
    simp only [Callers.next, List.getElem?_eq_none_iff, List.length_append] at hi
    exact inv.absent i (List.getElem?_eq_none (Nat.le_trans (Nat.le_add_right _ _) hi))
  holder := inv.holder
  cached := inv.cached
  past := inv.past
  stale := inv.stale
  out := inv.out
  single := inv.single

/-- Time that passes keeps the invariant. -/
theorem Invariant.pass (inv : Invariant process refresh s h) (ms : Nat) :
    Invariant process refresh (s.next process (.pass ms)) h where
  refresh := inv.refresh
  place := inv.place
  absent := inv.absent
  holder := inv.holder
  cached := inv.cached
  past c hc := Nat.le_trans (inv.past c hc) (Nat.le_add_right _ _)
  stale i hi := fresh?_none_mono (Nat.le_add_right _ _) (inv.stale i hi)
  out := inv.out
  single := inv.single

/-! ### An answered request -/

section Answer

variable {i : Nat} {q : Request} {next : q.Reply → Caller} {reply : q.Reply} {resolver : Resolver}

/-- A caller has the lock from the second look at the cache until it gives it up. -/
theorem Invariant.holder_of_ask (inv : Invariant process refresh s h)
    (hcaller : s.callers[i]? = some (.ask q next))
    (hq : q ≠ .takeLock) (hlook : q = .readCache → own i h ≠ []) :
    s.resolver.holder = some i := by
  rw [inv.holder]
  have hplace := inv.place i _ hcaller
  generalize own i h = xs at hplace hlook
  cases hplace <;> simp_all [Holding]

/-- The entry of an answered request is what it should be. -/
theorem Invariant.sound (inv : Invariant process refresh s h)
    (hcaller : s.callers[i]? = some (.ask q next))
    (hserve : s.resolver.serve s.now i q = some (reply, resolver)) :
    Entry.Sound process refresh h ⟨s.now, i, ⟨q, reply⟩⟩ where
  probe hx c hc hvalid := by
    obtain ⟨rfl, -⟩ := Sigma.mk.inj hx
    -- a caller that starts a probe has looked under the lock and found nothing fresh since
    have hstale : s.resolver.fresh? s.now = none := by
      have hplace := inv.place i _ hcaller
      have hstale := inv.stale i
      generalize own i h = xs at hplace hstale
      cases hplace
      exact hstale rfl
    by_contra hlt
    have hfresh := (inv.fresh?_eq_some c.identity).2
      ⟨c, hc, rfl, hvalid, inv.past c hc, Nat.lt_of_not_le hlt⟩
    cases hstale.symm.trans hfresh
  look reply' hx identity := by
    obtain ⟨rfl, hreply⟩ := Sigma.mk.inj hx
    cases hreply
    rw [← inv.fresh?_eq_some identity]
    cases hserve
    rfl
  write identity hx := by
    obtain ⟨rfl, -⟩ := Sigma.mk.inj hx
    have hplace := inv.place i _ hcaller
    generalize own i h = xs at hplace
    cases hplace with
    | writes host => exact ⟨host, by simp, rfl⟩

/-- The lock is held by the caller that has taken it and not given it up. -/
theorem Invariant.holder_answer (inv : Invariant process refresh s h)
    (hcaller : s.callers[i]? = some (.ask q next))
    (hserve : s.resolver.serve s.now i q = some (reply, resolver)) (j : Nat) :
    resolver.holder = some j ↔ Holding (own j (h ++ [⟨s.now, i, ⟨q, reply⟩⟩])) := by
  obtain ⟨-, -, hholder, hfree⟩ := serve_eq_some hserve
  have hplace := inv.place i _ hcaller
  rw [hholder]
  by_cases hij : i = j
  · subst hij
    have hbefore := inv.holder i
    rw [own_concat_self]
    generalize own i h = xs at hplace hbefore
    cases hplace <;> simp_all [Holding, holderAfter]
  · rw [own_concat_of_ne _ hij, ← inv.holder j]
    -- others have the lock neither when it is taken nor when it is given up
    cases hq : q with
    | takeLock => simp [holderAfter, hfree hq, hij]
    | unlock =>
      subst hq
      simp [holderAfter, inv.holder_of_ask hcaller nofun nofun, hij]
    | readCache | startProbe | endProbe | write => rfl

/-- Whoever has found nothing fresh under the lock still would. -/
theorem Invariant.stale_answer (inv : Invariant process refresh s h)
    (hcaller : s.callers[i]? = some (.ask q next))
    (hserve : s.resolver.serve s.now i q = some (reply, resolver)) (j : Nat)
    (hj : own j (h ++ [⟨s.now, i, ⟨q, reply⟩⟩]) =
      [⟨.readCache, none⟩, ⟨.takeLock, ()⟩, ⟨.readCache, none⟩]) :
    resolver.fresh? s.now = none := by
  by_cases hij : i = j
  · subst hij
    rw [own_concat_self] at hj
    have hplace := inv.place i _ hcaller
    generalize own i h = xs at hplace hj
    cases hplace with
    | checks =>
      obtain rfl : reply = none := by simpa using hj
      obtain ⟨hnone, rfl⟩ := Prod.mk.inj (Option.some.inj hserve)
      exact hnone
    | looks | waits | relieved | starts | probes | writes | leaves => simp at hj
  · rw [own_concat_of_ne _ hij] at hj
    have hholder : s.resolver.holder = some j := (inv.holder j).2 (by simp [hj, Holding])
    have hstale := inv.stale j hj
    obtain ⟨hrefresh, hcached, -, -⟩ := serve_eq_some hserve
    rw [Resolver.fresh?, ← hrefresh] at hstale
    -- nobody but the holder of the lock writes the cache
    cases q with
    | write identity =>
      have := inv.holder_of_ask hcaller nofun nofun
      exact absurd (Option.some.inj (this.symm.trans hholder)) hij
    | readCache | takeLock | startProbe | endProbe | unlock =>
      rw [Resolver.fresh?, show resolver.cached = s.resolver.cached from hcached]
      exact hstale

/-- Whoever has a probe out holds the lock. -/
theorem Invariant.holder_of_probing (inv : Invariant process refresh s h) {j : Nat}
    (hj : Probing (own j h)) : s.resolver.holder = some j := by
  rw [inv.holder]
  cases hcaller : s.callers[j]? with
  | none => simp [inv.absent j hcaller, Probing] at hj
  | some p => exact (inv.place j p hcaller).holding_of_probing hj

/-- A probe under way is that of the holder. -/
theorem Invariant.eq_of_probing (inv : Invariant process refresh s h)
    (hholder : s.resolver.holder = some i) (j : Nat) (hj : Probing (own j h)) : j = i :=
  Option.some.inj ((inv.holder_of_probing hj).symm.trans hholder)

/-- Two callers do not have a probe out at once. -/
theorem Invariant.probing_answer (inv : Invariant process refresh s h)
    (hcaller : s.callers[i]? = some (.ask q next)) (t : Nat) :
    (∀ j, j ∈ probing (h ++ [⟨t, i, ⟨q, reply⟩⟩]) ↔
      Probing (own j (h ++ [⟨t, i, ⟨q, reply⟩⟩]))) ∧
    (probing (h ++ [⟨t, i, ⟨q, reply⟩⟩])).length ≤ 1 := by
  have hplace := inv.place i _ hcaller
  have hsame (hstart : q ≠ .startProbe) (hend : q ≠ .endProbe) (j : Nat) :
      Probing (own j (h ++ [⟨t, i, ⟨q, reply⟩⟩])) ↔ Probing (own j h) := by
    by_cases hij : i = j
    · subst hij
      rw [own_concat_self]
      simp [Probing, hstart.symm, hend.symm]
    · rw [own_concat_of_ne _ hij]
  -- only the start and the end of a probe change who probes, and both are for the holder alone
  cases q with
  | readCache | takeLock | write | unlock =>
    simp only [hsame nofun nofun]
    simp only [probing, List.foldl_append, List.foldl_cons, List.foldl_nil]
    exact ⟨inv.out, inv.single⟩
  | startProbe =>
    have hown : own i h = [⟨.readCache, none⟩, ⟨.takeLock, ()⟩, ⟨.readCache, none⟩] := by
      generalize own i h = xs at hplace
      cases hplace
      rfl
    have honly := inv.eq_of_probing (inv.holder_of_ask hcaller nofun nofun)
    have hnone : probing h = [] := List.eq_nil_iff_forall_not_mem.2 fun j hj => by
      have hj := (inv.out j).1 hj
      rw [honly j hj, hown] at hj
      simp [Probing] at hj
    have hprobing : probing (h ++ [⟨t, i, ⟨.startProbe, reply⟩⟩]) = [i] := by
      rw [probing, List.foldl_append, ← probing, hnone]
      rfl
    rw [hprobing]
    refine ⟨fun j => ?_, by simp⟩
    by_cases hij : i = j
    · subst hij
      simp [own_concat_self, hown, Probing]
    · rw [own_concat_of_ne _ hij, List.mem_singleton]
      exact ⟨fun h => absurd h.symm hij, fun hj => honly j hj⟩
  | endProbe =>
    have hown : own i h = [⟨.readCache, none⟩, ⟨.takeLock, ()⟩, ⟨.readCache, none⟩,
        ⟨.startProbe, ()⟩] := by
      generalize own i h = xs at hplace
      cases hplace
      rfl
    have honly := inv.eq_of_probing (inv.holder_of_ask hcaller nofun nofun)
    have hone : probing h = [i] := by
      have hmem : i ∈ probing h := (inv.out i).2 (by simp [hown, Probing])
      obtain ⟨j, hj⟩ := List.length_eq_one_iff.1
        (Nat.le_antisymm inv.single (List.length_pos_of_mem hmem))
      rw [hj, List.mem_singleton] at hmem
      rw [hj, hmem]
    have hprobing : probing (h ++ [⟨t, i, ⟨.endProbe, reply⟩⟩]) = [] := by
      rw [probing, List.foldl_append, ← probing, hone]
      show [i].erase i = []
      simp
    rw [hprobing]
    refine ⟨fun j => ⟨nofun, fun hj => ?_⟩, by simp⟩
    by_cases hij : i = j
    · subst hij
      exact absurd (by simp [own_concat_self]) (hj.2 reply)
    · rw [own_concat_of_ne _ hij] at hj
      exact absurd (honly j hj).symm hij

/-- An answered request keeps the invariant up. -/
theorem Invariant.answer (inv : Invariant process refresh s h)
    (hcaller : s.callers[i]? = some (.ask q next))
    (hserve : s.resolver.serve s.now i q = some (reply, resolver)) :
    Invariant process refresh { s with resolver, callers := s.callers.set i (next reply) }
      (h ++ [⟨s.now, i, ⟨q, reply⟩⟩]) := by
  obtain ⟨hrefresh, hcached, -, -⟩ := serve_eq_some hserve
  have hlt : i < s.callers.length := (List.getElem?_eq_some_iff.1 hcaller).1
  obtain ⟨hout, hsingle⟩ := inv.probing_answer hcaller s.now
  exact {
    refresh := hrefresh.trans inv.refresh
    place := fun j p hp => by
      by_cases hij : i = j
      · subst hij
        rw [List.getElem?_set_self hlt] at hp
        cases hp
        rw [own_concat_self]
        exact (inv.place i _ hcaller).next reply
      · rw [List.getElem?_set_ne hij] at hp
        rw [own_concat_of_ne _ hij]
        exact inv.place j p hp
    absent := fun j hj => by
      have hij : i ≠ j := by
        rintro rfl
        simp [List.getElem?_set_self hlt] at hj
      rw [List.getElem?_set_ne hij] at hj
      rw [own_concat_of_ne _ hij, inv.absent j hj]
    holder := inv.holder_answer hcaller hserve
    cached := by rw [hcached, inv.cached, written_concat]
    -- a write is dated by the clock, which has not moved on since
    past := fun c hc => by
      rw [written_concat, Option.or_eq_some_iff] at hc
      rcases hc with hnew | ⟨-, hold⟩
      · simp only [Entry.write?] at hnew
        split at hnew
        · cases hnew
          exact Nat.le_refl _
        · cases hnew
      · exact inv.past c hold
    stale := inv.stale_answer hcaller hserve
    out := hout
    single := hsingle }

end Answer

end Preservation

/-! ## Every run -/

/-- What holds after every step of a run: the invariant, and that every entry is what it should
be. -/
theorem invariant_of_run (process : String) (refresh : Nat) (results : List ProbeResult)
    (start : Nat) (events : List Event) :
    let new : Callers := { resolver := { refresh, results }, now := start }
    Invariant process refresh (new.run process events) (new.history process events) ∧
      ∀ before e after, new.history process events = before ++ e :: after →
        Entry.Sound process refresh before e := by
  intro new
  -- the entries before the last one were sound when they were made
  induction events using List.reverseRecOn with
  | nil => exact ⟨invariant_new process refresh results start, fun _ _ _ h => by
      simp [Callers.history] at h⟩
  | append_singleton events event ih =>
    obtain ⟨inv, sound⟩ := ih
    rw [Callers.run_concat, Callers.history_concat]
    generalize new.run process events = s at inv
    generalize new.history process events = h at inv sound
    cases event with
    | arrive =>
      simp only [Callers.logged?, Option.toList_none, List.append_nil]
      exact ⟨inv.arrive, sound⟩
    | pass ms =>
      simp only [Callers.logged?, Option.toList_none, List.append_nil]
      exact ⟨inv.pass ms, sound⟩
    | step i =>
      show Invariant process refresh (s.step i) _ ∧ _
      rcases Callers.step_cases (s := s) i with ⟨hsame, hnone⟩ |
        ⟨q, next, reply, resolver, hcaller, hserve, hstep, hentry⟩
      · rw [hsame, hnone, Option.toList_none, List.append_nil]
        exact ⟨inv, sound⟩
      · rw [hstep, hentry, Option.toList_some]
        refine ⟨inv.answer hcaller hserve, fun before e after heq => ?_⟩
        rcases List.eq_nil_or_concat after with rfl | ⟨after, last, rfl⟩
        · obtain ⟨rfl, hlast⟩ := List.append_inj' heq rfl
          cases hlast
          exact inv.sound hcaller hserve
        · rw [List.concat_eq_append, ← List.cons_append, ← List.append_assoc] at heq
          exact sound before e after (List.append_inj_left' heq rfl)

/-- The cache of a resolver as its callers see it, by the history of their exchanges. -/
structure Caching (process : String) (refresh : Nat) (s : Callers) (h : List Entry) : Prop where
  /-- The cache holds what was written last. -/
  cached : s.resolver.cached = written h
  /-- A probe is sent out only if nothing was written, or the last identity written is not valid or
  as old as the refresh interval. -/
  probes : ∀ before e after, h = before ++ e :: after → e.exchange = ⟨.startProbe, ()⟩ →
    ∀ c, written before = some c → c.identity.valid = true → c.computedAt + refresh ≤ e.time
  /-- No two probes are out at once. -/
  single : (probing h).length ≤ 1
  /-- A caller that has ended without a probe has been served from the cache, with a valid identity
  that was younger than the refresh interval when it looked. -/
  served : ∀ i identity, s.callers[i]? = some (.done identity) → ⟨.startProbe, ()⟩ ∉ own i h →
    identity.valid = true ∧ ∃ before e after c, h = before ++ e :: after ∧ e.caller = i ∧
      e.exchange = ⟨.readCache, some identity⟩ ∧ written before = some c ∧ c.identity = identity ∧
      c.computedAt ≤ e.time ∧ e.time < c.computedAt + refresh
  /-- A caller that has ended after a probe has what the probe found, and has written it. -/
  probed : ∀ i identity, s.callers[i]? = some (.done identity) → ⟨.startProbe, ()⟩ ∈ own i h →
    ∃ host, ⟨.endProbe, host⟩ ∈ own i h ∧ identity = ofHost process host ∧
      ⟨.write identity, ()⟩ ∈ own i h
  /-- What is written is what the writer's own probe has found. -/
  writes : ∀ before e after identity, h = before ++ e :: after →
    e.exchange = ⟨.write identity, ()⟩ →
    ∃ host, ⟨.endProbe, host⟩ ∈ own e.caller before ∧ identity = ofHost process host
  /-- What is served from the cache has been resolved. -/
  resolved : ∀ e ∈ h, ∀ identity, e.exchange = ⟨.readCache, some identity⟩ → identity.valid = true
  /-- Once the result of a probe that found nothing is written, whatever was there before, nothing
  is served from the cache until the next write. -/
  replaced : ∀ before w between e after, h = before ++ w :: (between ++ e :: after) →
    w.exchange = ⟨.write (ofHost process none), ()⟩ → (∀ x ∈ between, x.write? = none) →
    ∀ reply, e.exchange = ⟨.readCache, reply⟩ → reply = none

/-- Without a write in between the cache holds what it held. -/
theorem written_append_of_none {h between : List Entry} (hnone : ∀ x ∈ between, x.write? = none) :
    written (h ++ between) = written h := by
  induction between using List.reverseRecOn with
  | nil => rw [List.append_nil]
  | append_singleton between x ih =>
    rw [← List.append_assoc, written_concat, hnone x (by simp), Option.none_or,
      ih fun y hy => hnone y (by simp [hy])]

/-- However callers arrive and make their requests, whatever the probes find and however long they
take, at any refresh interval. -/
theorem caching_of_run (process : String) (refresh : Nat) (results : List ProbeResult)
    (start : Nat) (events : List Event) :
    let new : Callers := { resolver := { refresh, results }, now := start }
    Caching process refresh (new.run process events) (new.history process events) := by
  intro new
  obtain ⟨inv, sound⟩ := invariant_of_run process refresh results start events
  replace inv : Invariant process refresh (new.run process events) (new.history process events) :=
    inv
  generalize new.run process events = s at inv
  generalize new.history process events = h at inv sound
  exact {
    cached := inv.cached
    probes := fun before e after heq => (sound before e after heq).probe
    single := inv.single
    served := fun i identity hdone hno => by
      have hlook : ⟨.readCache, some identity⟩ ∈ own i h := by
        have hplace := inv.place i _ hdone
        generalize own i h = xs at hplace hno
        cases hplace <;> simp_all
      obtain ⟨e, he, rfl, hx⟩ := mem_own.1 hlook
      obtain ⟨before, after, rfl⟩ := List.append_of_mem he
      obtain ⟨c, hc, hidentity, hvalid, hle, hlt⟩ :=
        ((sound before e after rfl).look _ hx identity).1 rfl
      exact ⟨hvalid, before, e, after, c, rfl, rfl, hx, hc, hidentity, hle, hlt⟩
    probed := fun i identity hdone hprobe => by
      have hplace := inv.place i _ hdone
      generalize own i h = xs at hplace hprobe
      cases hplace with
      | resolved host => exact ⟨host, by simp, rfl, by simp⟩
      | served | servedLate => simp at hprobe
    writes := fun before e after identity heq => (sound before e after heq).write identity
    resolved := fun e he identity hx => by
      obtain ⟨before, after, rfl⟩ := List.append_of_mem he
      obtain ⟨c, -, -, hvalid, -⟩ := ((sound before e after rfl).look _ hx identity).1 rfl
      exact hvalid
    -- an identity without a host is never valid, so whoever looks next finds nothing
    replaced := fun before w between e after heq hw hbetween reply hx => by
      have hwritten : written (before ++ w :: between) =
          some ⟨ofHost process none, w.time⟩ := by
        rw [← List.singleton_append, ← List.append_assoc, written_append_of_none hbetween,
          written_concat]
        simp [Entry.write?, hw]
      cases reply with
      | none => rfl
      | some identity =>
        have hsound := sound (before ++ w :: between) e after (by simp [heq])
        obtain ⟨c, hc, rfl, hvalid, -⟩ := (hsound.look _ hx identity).1 rfl
        rw [hwritten] at hc
        cases hc
        cases hvalid }

/-- An identity that is exactly as old as the refresh interval is resolved again, and the probe that
finds nothing then takes its place. -/
example :
    let new : Callers := { resolver := { refresh := 10, results := [⟨some "h", 0⟩, ⟨none, 0⟩] } }
    (new.run "1@n" ([.arrive] ++ List.replicate 7 (.step 0) ++
      [.pass 10, .arrive] ++ List.replicate 7 (.step 1))).resolver.cached =
        some ⟨⟨"UnknownHost:1@n", false⟩, 10⟩ := by
  decide +kernel

end Identity

end EntityCache
