import EntityCache.Lock.Timed
import EntityCache.Proofs.Lock.History

/-!
# Milliseconds without an end stand for the clocks of a machine

A service in memory that reads instants breaks off only where a lifetime leads beyond the last one
(`TimedLeases.isSome_answer?`).  As long as none does, it answers every sequence of requests as the
service does that counts milliseconds from the instant at which it began (`answerAll?_eq_serveAll`):
what the two record for a lock is one lease, read on two clocks (`Tracks`), and each request keeps
that up.

A database records the moment of expiry as a 64-bit number.  It is the sum of the moment and the
lifetime, or the largest number (`Rows.toInt_expiryAt`); from 1970 on that is what is reckoned
without an end and then cut off (`Rows.toInt_expiryAt_ofNat`).
-/

namespace EntityCache

/-- There is an instant that comes a number of milliseconds later. -/
def Instant.HasRoom (t : Instant) (milliseconds : Nat) : Prop :=
  t.total + milliseconds * 1000000 ≤ last.total

theorem Instant.HasRoom.mono {t : Instant} {fewer more : Nat} (h : t.HasRoom more)
    (hle : fewer ≤ more) : t.HasRoom fewer := by
  unfold HasRoom at h ⊢
  omega

/-- That instant has as many nanoseconds more. -/
theorem Instant.HasRoom.exists_add? {t : Instant} {milliseconds : Nat}
    (h : t.HasRoom milliseconds) :
    ∃ u, t.add? (.ofMilliseconds milliseconds) = some u ∧
      u.total = t.total + milliseconds * 1000000 := by
  unfold HasRoom at h
  have hfits : t.total + (milliseconds * 1000000 : Nat) ≤ last.total := by omega
  obtain ⟨u, hu⟩ := exists_total t hfits
  refine ⟨u, add?_eq_some_iff.2 ?_, by omega⟩
  rw [hu, Duration.total_ofMilliseconds]

namespace Lock

/-! ## Requests that break off -/

namespace TimedLeases

variable {now : Instant} {key owner : String} {lifetime : Nat} {leases : TimedLeases}

/-- A grant is possible if the clock can tell when it expires. -/
theorem isSome_grant?_iff :
    (leases.grant? now key owner lifetime).isSome ↔ now.HasRoom lifetime := by
  rw [grant?, Option.isSome_map, Instant.isSome_add?_iff, Duration.total_ofMilliseconds,
    Instant.HasRoom]
  omega

/-- A request is answered if its lifetime does not lead beyond the last instant. -/
theorem isSome_answer? {r : Request} (h : ∀ lifetime ∈ r.lifetime?, now.HasRoom lifetime) :
    (leases.answer? now r).isSome := by
  -- only a grant adds to the clock, so only its lifetime needs room
  cases r with
  | acquire key owner lifetime =>
    have hgrant : (leases.grant? now key owner lifetime).isSome := isSome_grant?_iff.2 (h _ rfl)
    rw [answer?]
    split
    case h_1 =>
      split
      · rfl
      · exact hgrant
    case h_2 => exact hgrant
  | heartbeat key owner lifetime =>
    rw [answer?]
    split
    case h_1 =>
      split
      · exact isSome_grant?_iff.2 (h _ rfl)
      · rfl
    case h_2 => rfl
  | release key owner =>
    rw [answer?]
    split <;> rfl

/-- A lock that nobody has is acquired exactly if there is an instant at which it can expire. -/
theorem isSome_answer?_acquire_empty :
    (answer? now (.acquire key owner lifetime) ∅).isSome ↔ now.HasRoom lifetime := by
  rw [answer?, Std.ExtTreeMap.getElem?_empty]
  exact isSome_grant?_iff

end TimedLeases

/-! ## Leases on two clocks -/

/-- A lease in milliseconds from a beginning, and the same one in instants. -/
structure Lease.ReadsAs (beginning : Instant) (lease : Lease) (timed : TimedLease) : Prop where
  owner : timed.owner = lease.owner
  expires : timed.expires.total = beginning.total + lease.expires * 1000000

/-- The same leases on two clocks. -/
def Tracks (beginning : Instant) (leases : Leases) (timed : TimedLeases) : Prop :=
  ∀ key : String, Option.Rel (Lease.ReadsAs beginning) leases[key]? timed[key]?

/-- Answers requests one after another, each at its number of milliseconds after a beginning; `none`
if one of them breaks off, or its moment has no instant. -/
def TimedLeases.answerAll? (beginning : Instant) :
    List (Nat × Request) → TimedLeases → Option (List Bool)
  | [], _ => some []
  | (now, r) :: rest, leases =>
    ((beginning.add? (.ofMilliseconds now)).bind fun t => leases.answer? t r).bind
      fun (granted, leases) => (leases.answerAll? beginning rest).map (granted :: ·)

section Tracks

variable {beginning t : Instant} {now lifetime : Nat} {key owner : String} {lease : Lease}
  {timedLease : TimedLease} {leases : Leases} {timed : TimedLeases}

/-- A lease is in force on both clocks or on neither. -/
theorem Lease.ReadsAs.lt_iff (h : lease.ReadsAs beginning timedLease)
    (hnow : t.total = beginning.total + now * 1000000) :
    t < timedLease.expires ↔ now < lease.expires := by
  rw [Instant.lt_iff_total_lt, hnow, h.expires]
  omega

namespace Tracks

theorem empty (beginning : Instant) : Tracks beginning ∅ ∅ := by
  intro key
  rw [Std.ExtTreeMap.getElem?_empty, Std.ExtTreeMap.getElem?_empty]
  exact .none

theorem getElem?_eq_none (h : Tracks beginning leases timed) (hnone : leases[key]? = none) :
    timed[key]? = none := by
  have hkey := h key
  rw [hnone] at hkey
  generalize timed[key]? = timed? at hkey
  cases hkey
  rfl

theorem exists_getElem? (h : Tracks beginning leases timed) (hsome : leases[key]? = some lease) :
    ∃ timedLease, timed[key]? = some timedLease ∧ lease.ReadsAs beginning timedLease := by
  have hkey := h key
  rw [hsome] at hkey
  generalize timed[key]? = timed? at hkey
  cases hkey with
  | some hreads => exact ⟨_, rfl, hreads⟩

theorem insert (h : Tracks beginning leases timed) (hreads : lease.ReadsAs beginning timedLease)
    (key : String) : Tracks beginning (leases.insert key lease) (timed.insert key timedLease) := by
  intro name
  rw [Std.ExtTreeMap.getElem?_insert, Std.ExtTreeMap.getElem?_insert]
  split
  · exact .some hreads
  · exact h name

theorem erase (h : Tracks beginning leases timed) (key : String) :
    Tracks beginning (leases.erase key) (timed.erase key) := by
  intro name
  rw [Std.ExtTreeMap.getElem?_erase, Std.ExtTreeMap.getElem?_erase]
  split
  · exact .none
  · exact h name

/-- A lock that is granted on both clocks is one lease afterwards. -/
theorem grant (h : Tracks beginning leases timed)
    (hnow : t.total = beginning.total + now * 1000000) (hroom : t.HasRoom lifetime)
    (key owner : String) :
    ∃ timed', timed.grant? t key owner lifetime = some (true, timed') ∧
      Tracks beginning (leases.insert key ⟨owner, now + lifetime⟩) timed' := by
  have hsome : (timed.grant? t key owner lifetime).isSome := TimedLeases.isSome_grant?_iff.2 hroom
  obtain ⟨granted, hgranted⟩ := Option.isSome_iff_exists.1 hsome
  obtain ⟨expires, hexpires, rfl⟩ := Option.map_eq_some_iff.1 hgranted
  refine ⟨_, hgranted, h.insert ⟨rfl, ?_⟩ key⟩
  rw [Instant.add?_eq_some_iff, Duration.total_ofMilliseconds] at hexpires
  simp only [hexpires, hnow]
  omega

/-- A request that does not break off is answered alike on both clocks, and what they record is the
same afterwards. -/
theorem answer (h : Tracks beginning leases timed)
    (hnow : t.total = beginning.total + now * 1000000) {r : Request}
    (hroom : ∀ lifetime ∈ r.lifetime?, t.HasRoom lifetime) :
    ∃ timed', timed.answer? t r = some ((leases.answer now r).1, timed') ∧
      Tracks beginning (leases.answer now r).2 timed' := by
  -- the two services look up one lease and compare it alike, so they take the same branch
  cases r with
  | acquire key owner lifetime =>
    have hgrant := h.grant hnow (hroom lifetime rfl) key owner
    cases hlease : leases[key]? with
    | none => simpa only [TimedLeases.answer?, Leases.answer, hlease, h.getElem?_eq_none hlease]
    | some lease =>
      obtain ⟨timedLease, htimed, hreads⟩ := h.exists_getElem? hlease
      simp only [TimedLeases.answer?, Leases.answer, hlease, htimed, hreads.lt_iff hnow,
        hreads.owner]
      split
      · exact ⟨timed, rfl, h⟩
      · exact hgrant
  | heartbeat key owner lifetime =>
    cases hlease : leases[key]? with
    | none =>
      simp only [TimedLeases.answer?, Leases.answer, hlease, h.getElem?_eq_none hlease]
      exact ⟨timed, rfl, h⟩
    | some lease =>
      obtain ⟨timedLease, htimed, hreads⟩ := h.exists_getElem? hlease
      simp only [TimedLeases.answer?, Leases.answer, hlease, htimed, hreads.lt_iff hnow,
        hreads.owner]
      split
      · exact h.grant hnow (hroom lifetime rfl) key lease.owner
      · exact ⟨timed, rfl, h⟩
  | release key owner =>
    cases hlease : leases[key]? with
    | none =>
      simp only [TimedLeases.answer?, Leases.answer, hlease, h.getElem?_eq_none hlease]
      exact ⟨timed, rfl, h⟩
    | some lease =>
      obtain ⟨timedLease, htimed, hreads⟩ := h.exists_getElem? hlease
      simp only [TimedLeases.answer?, Leases.answer, hlease, htimed, hreads.owner]
      split
      · exact ⟨_, rfl, h.erase key⟩
      · exact ⟨timed, rfl, h⟩

/-- So are sequences of requests. -/
theorem answerAll (h : Tracks beginning leases timed) {calls : List (Nat × Request)}
    (hroom : ∀ call ∈ calls, beginning.HasRoom (call.1 + call.2.lifetime?.getD 0)) :
    (timed.answerAll? beginning calls).map (·.map .ok) =
      some (((Backing.memory leases).serveAll calls).1.map (·.reply)) := by
  induction calls generalizing leases timed with
  | nil => rfl
  | cons call rest ih =>
    obtain ⟨now, r⟩ := call
    obtain ⟨hcall, hrest⟩ := List.forall_mem_cons.1 hroom
    obtain ⟨t, ht, hnow⟩ := (hcall.mono (Nat.le_add_right now _)).exists_add?
    -- room for the moment and the lifetime together is room for the lifetime from that moment on
    have hlifetime : ∀ lifetime ∈ r.lifetime?, t.HasRoom lifetime := by
      intro lifetime hlifetime
      simp only [Option.mem_def.1 hlifetime, Option.getD_some, Instant.HasRoom] at hcall
      rw [Instant.HasRoom, hnow]
      omega
    obtain ⟨timed', hanswer, htracks⟩ := h.answer hnow hlifetime
    obtain ⟨answers, hanswers, hreplies⟩ := Option.map_eq_some_iff.1 (ih htracks hrest)
    have hserve : (Backing.memory leases).serve now r =
      (.ok (leases.answer now r).1, .memory (leases.answer now r).2) := rfl
    simp only [TimedLeases.answerAll?, ht, hanswer, hanswers, Option.bind_some, Option.map_some,
      Backing.serveAll, hserve, List.map_cons, hreplies]

end Tracks

/-- A new service in memory answers every sequence of requests on the clock of a machine as it does
in milliseconds, as long as no request and no expiry comes after the last instant. -/
theorem answerAll?_eq_serveAll {calls : List (Nat × Request)}
    (hroom : ∀ call ∈ calls, beginning.HasRoom (call.1 + call.2.lifetime?.getD 0)) :
    (TimedLeases.answerAll? beginning calls ∅).map (·.map .ok) =
      some (((Backing.memory ∅).serveAll calls).1.map (·.reply)) :=
  (Tracks.empty beginning).answerAll hroom

end Tracks

/-! ## Moments of the calendar -/

namespace Rows

/-- From the smallest number up, what is no 64-bit number is the largest one. -/
theorem toInt_ofIntClamp {n : Int} (h : Int64.minValue.toInt ≤ n) :
    (Int64.ofIntClamp n).toInt = min n latest := by
  have hlatest : Int64.maxValue.toInt = latest := rfl
  rw [Int64.ofIntClamp, dif_pos h]
  split
  case isTrue hle =>
    rw [Int64.toInt_ofIntLE]
    omega
  case isFalse hlt => omega

/-- The moment of expiry is the sum of the moment and the lifetime, each cut off at the largest
number; it never goes round to the smallest ones. -/
theorem toInt_expiryAt (now : Int64) (lifetime : Duration) :
    (expiryAt now lifetime).toInt =
      min (now.toInt + min lifetime.toMilliseconds latest) latest := by
  have hnow := now.minValue_le_toInt
  have hzero : Int64.minValue.toInt ≤ 0 := by decide
  have hlifetime : (Int64.ofIntClamp lifetime.toMilliseconds).toInt =
      min lifetime.toMilliseconds latest := by
    rw [toInt_ofIntClamp (by omega)]
    omega
  rw [expiryAt, hlifetime]
  exact toInt_ofIntClamp (by omega)

/-- From 1970 on it is the moment that is reckoned without an end. -/
theorem toInt_expiryAt_ofNat {now : Nat} (h : now ≤ latest) (lifetime : Nat) :
    (expiryAt (.ofNat now) (.ofMilliseconds lifetime)).toInt = expiry now lifetime := by
  have hlt : now < 2 ^ 63 := Nat.lt_of_le_of_lt h (by decide)
  have hnow : (Int64.ofNat now).toInt = now := Int64.toInt_ofNat_of_lt hlt
  rw [toInt_expiryAt, hnow, Duration.toMilliseconds_ofMilliseconds, expiry]
  omega

end Rows

end Lock

end EntityCache
