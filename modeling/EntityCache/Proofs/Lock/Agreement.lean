import EntityCache.Proofs.Lock.History

/-!
# A lock service in memory and one in a database agree

In memory a lock may expire at any moment to come, in a database not after `Rows.latest`.  So a long
lease ends earlier in a row of a database than it does in memory.  But before the latest moment
nobody can tell, since until then neither of the two has run out: such leases have the same owner
and are in force at the same moments (`Lease.Matches`).

Services whose leases match answer every request alike, and their leases match afterwards
(`Agree.serve`).  It does not matter how long the lifetimes are, nor in which order the clock
readings come, as long as they are before the latest moment (`serveAll_memory_eq_database`).
-/

namespace EntityCache

namespace Lock

/-- The leases are of one owner, and until the latest moment they are in force together. -/
structure Lease.Matches (lease lease' : Lease) : Prop where
  owner : lease.owner = lease'.owner
  inForce : ∀ now < Rows.latest, now < lease.expires ↔ now < lease'.expires

namespace Backing

variable {b b' : Backing} {now lifetime : Nat} {key owner : String} {r : Request}

/-- Until the latest moment a lock is in force for its lifetime, whatever a service records. -/
theorem lt_expiry_iff {start : Nat} (h : now < Rows.latest) :
    now < b.expiry start lifetime ↔ now < start + lifetime := by
  cases b with
  | memory _ => rfl
  | database _ => exact Nat.lt_min.trans (and_iff_left h)

/-- Leases that are granted at one moment for one lifetime match. -/
theorem matches_expiry (b b' : Backing) (owner : String) (now lifetime : Nat) :
    Lease.Matches ⟨owner, b.expiry now lifetime⟩ ⟨owner, b'.expiry now lifetime⟩ where
  owner := rfl
  inForce _ h := (lt_expiry_iff h).trans (lt_expiry_iff h).symm

/-- A lock is granted exactly where no other owner's lease is in force. -/
theorem acquire_eq_true_iff (hsound : b.Sound) (hopen : b.IsOpen) :
    (b.serve now (.acquire key owner lifetime)).1 = .ok true ↔
      ∀ lease ∈ b.lookup key, now < lease.expires → lease.owner = owner := by
  constructor
  · intro hgranted lease hlease hforce
    rcases (serve_acquire hsound now lifetime key owner).free hgranted lease hlease with
      hexpired | howner
    · exact absurd hforce (Nat.not_lt.2 hexpired)
    · exact howner
  · intro hfree
    refine serve_acquire_of_free hsound hopen fun lease hlease => ?_
    rcases Nat.lt_or_ge now lease.expires with hforce | hexpired
    · exact .inr (hfree lease hlease hforce)
    · exact .inl hexpired

/-- Two open services that grant a request together answer it alike. -/
theorem serve_eq_of_granted_iff (hopen : b.IsOpen) (hopen' : b'.IsOpen)
    (h : (b.serve now r).1 = .ok true ↔ (b'.serve now r).1 = .ok true) :
    (b.serve now r).1 = (b'.serve now r).1 := by
  obtain ⟨granted, hreply⟩ := serve_ok hopen now r
  obtain ⟨granted', hreply'⟩ := serve_ok hopen' now r
  rw [hreply, hreply', Except.ok.injEq, Except.ok.injEq] at h
  rw [hreply, hreply', Bool.eq_iff_iff.2 h]

/-- A release is always answered with `true`. -/
theorem serve_release_eq (hopen : b.IsOpen) : (b.serve now (.release key owner)).1 = .ok true := by
  cases b with
  | memory leases =>
    simp only [serve, Leases.service, Leases.answer]
    cases leases[key]? <;> rfl
  | database table =>
    replace hopen : table.isOpen = true := hopen
    simp only [serve, Database.service, if_pos hopen, Rows.answer]

end Backing

/-- Two open services that record matching leases. -/
structure Agree (b b' : Backing) : Prop where
  sound : b.Sound
  sound' : b'.Sound
  isOpen : b.IsOpen
  isOpen' : b'.IsOpen
  lookup : ∀ key, Option.Rel Lease.Matches (b.lookup key) (b'.lookup key)

namespace Agree

variable {b b' after after' : Backing} {now lifetime : Nat} {key owner : String}

/-- New services agree. -/
theorem new : Agree (.memory ∅) (.database {}) where
  sound := Backing.sound_memory ∅
  sound' := List.nodup_nil
  isOpen := trivial
  isOpen' := rfl
  lookup key := by
    rw [Backing.lookup, Std.ExtTreeMap.getElem?_empty]
    exact .none

/-- What is recorded for one lock may change, if it still matches. -/
theorem change (h : Agree b b') (halike : Backing.Alike b after) (halike' : Backing.Alike b' after')
    (hother : ∀ name, name ≠ key → after.lookup name = b.lookup name)
    (hother' : ∀ name, name ≠ key → after'.lookup name = b'.lookup name)
    (hkey : Option.Rel Lease.Matches (after.lookup key) (after'.lookup key)) :
    Agree after after' where
  sound := halike.sound
  sound' := halike'.sound
  isOpen := halike.isOpen.2 h.isOpen
  isOpen' := halike'.isOpen.2 h.isOpen'
  lookup name := by
    by_cases hname : name = key
    · subst hname
      exact hkey
    · rw [hother name hname, hother' name hname]
      exact h.lookup name

/-- Services that agree grant a lock alike, unless the clock stands at the end of time. -/
theorem acquire (h : Agree b b') (hnow : now < Rows.latest) :
    (b.serve now (.acquire key owner lifetime)).1 =
        (b'.serve now (.acquire key owner lifetime)).1 ∧
      Agree (b.serve now (.acquire key owner lifetime)).2
        (b'.serve now (.acquire key owner lifetime)).2 := by
  have hacquired := Backing.serve_acquire h.sound now lifetime key owner
  have hacquired' := Backing.serve_acquire h.sound' now lifetime key owner
  have hreply : (b.serve now (.acquire key owner lifetime)).1 =
      (b'.serve now (.acquire key owner lifetime)).1 := by
    apply Backing.serve_eq_of_granted_iff h.isOpen h.isOpen'
    rw [Backing.acquire_eq_true_iff h.sound h.isOpen,
      Backing.acquire_eq_true_iff h.sound' h.isOpen']
    -- of two leases that match, both stand in the way or neither does
    have hleases := h.lookup key
    generalize b.lookup key = lease?, b'.lookup key = lease'? at hleases
    cases hleases with
    | none => simp
    | some hmatch => simp [hmatch.owner, hmatch.inForce now hnow]
  refine ⟨hreply, h.change hacquired.toAlike hacquired'.toAlike hacquired.other hacquired'.other ?_⟩
  by_cases hgranted : (b.serve now (.acquire key owner lifetime)).1 = .ok true
  · rw [hacquired.granted hgranted, hacquired'.granted (hreply ▸ hgranted)]
    exact .some (Backing.matches_expiry b b' owner now lifetime)
  · rw [hacquired.refused hgranted, hacquired'.refused (hreply ▸ hgranted)]
    exact h.lookup key

/-- Services that agree extend a lock alike, unless the clock stands at the end of time. -/
theorem heartbeat (h : Agree b b') (hnow : now < Rows.latest) :
    (b.serve now (.heartbeat key owner lifetime)).1 =
        (b'.serve now (.heartbeat key owner lifetime)).1 ∧
      Agree (b.serve now (.heartbeat key owner lifetime)).2
        (b'.serve now (.heartbeat key owner lifetime)).2 := by
  have hextended := Backing.serve_heartbeat h.sound now lifetime key owner
  have hextended' := Backing.serve_heartbeat h.sound' now lifetime key owner
  have hreply : (b.serve now (.heartbeat key owner lifetime)).1 =
      (b'.serve now (.heartbeat key owner lifetime)).1 := by
    apply Backing.serve_eq_of_granted_iff h.isOpen h.isOpen'
    rw [hextended.answer h.isOpen, hextended'.answer h.isOpen']
    -- leases that agree expire at other moments only at the end of time
    have hleases := h.lookup key
    generalize b.lookup key = lease?, b'.lookup key = lease'? at hleases
    cases hleases with
    | none => simp
    | some hmatch => simp [hmatch.owner, hmatch.inForce now hnow]
  refine ⟨hreply, h.change hextended.toAlike hextended'.toAlike hextended.other hextended'.other ?_⟩
  by_cases hgranted : (b.serve now (.heartbeat key owner lifetime)).1 = .ok true
  · rw [hextended.extended hgranted, hextended'.extended (hreply ▸ hgranted)]
    exact .some (Backing.matches_expiry b b' owner now lifetime)
  · rw [hextended.refused hgranted, hextended'.refused (hreply ▸ hgranted)]
    exact h.lookup key

/-- Services that agree release a lock alike, at any time. -/
theorem release (h : Agree b b') :
    (b.serve now (.release key owner)).1 = (b'.serve now (.release key owner)).1 ∧
      Agree (b.serve now (.release key owner)).2 (b'.serve now (.release key owner)).2 := by
  have hreleased := Backing.serve_release h.sound now key owner
  have hreleased' := Backing.serve_release h.sound' now key owner
  refine ⟨?_, h.change hreleased.toAlike hreleased'.toAlike hreleased.other hreleased'.other ?_⟩
  · rw [Backing.serve_release_eq h.isOpen, Backing.serve_release_eq h.isOpen']
  · rw [Backing.lookup_release h.sound h.isOpen, Backing.lookup_release h.sound' h.isOpen']
    have hleases := h.lookup key
    generalize b.lookup key = lease?, b'.lookup key = lease'? at hleases
    cases hleases with
    | none => exact .none
    | @some lease lease' hmatch =>
      by_cases howner : lease'.owner = owner
      · simp [Option.filter, hmatch.owner, howner]
      · simp [Option.filter, hmatch.owner, howner, hmatch]

/-- Before the latest moment services that agree answer every request alike, and agree
afterwards. -/
theorem serve (h : Agree b b') (hnow : now < Rows.latest) (r : Request) :
    (b.serve now r).1 = (b'.serve now r).1 ∧ Agree (b.serve now r).2 (b'.serve now r).2 := by
  cases r with
  | acquire key owner lifetime => exact h.acquire hnow
  | heartbeat key owner lifetime => exact h.heartbeat hnow
  | release key owner => exact h.release

/-- So they do with every sequence of requests. -/
theorem serveAll (h : Agree b b') {calls : List (Nat × Request)}
    (hrange : ∀ call ∈ calls, call.1 < Rows.latest) :
    (b.serveAll calls).1 = (b'.serveAll calls).1 ∧
      ∀ entry ∈ (b.serveAll calls).1, ∃ granted, entry.reply = .ok granted := by
  induction calls generalizing b b' with
  | nil => exact ⟨rfl, List.forall_mem_nil _⟩
  | cons call rest ih =>
    obtain ⟨now, r⟩ := call
    obtain ⟨hreply, hagree⟩ := h.serve (hrange (now, r) List.mem_cons_self) r
    obtain ⟨hrest, hanswered⟩ :=
      ih hagree fun call hcall => hrange call (List.mem_cons_of_mem _ hcall)
    simp only [Backing.serveAll, hreply, hrest, true_and]
    rw [← hreply, ← hrest]
    exact List.forall_mem_cons.2 ⟨Backing.serve_ok h.isOpen now r, hanswered⟩

end Agree

/-- A new lock service in memory and a new one in a database answer every sequence of requests
alike, with any lifetimes and at any clock readings before the latest moment that a database can
record; and they answer each of them. -/
theorem serveAll_memory_eq_database {calls : List (Nat × Request)}
    (hrange : ∀ call ∈ calls, call.1 < Rows.latest) :
    ((Backing.memory ∅).serveAll calls).1 = ((Backing.database {}).serveAll calls).1 ∧
      ∀ entry ∈ ((Backing.memory ∅).serveAll calls).1, ∃ granted, entry.reply = .ok granted :=
  Agree.new.serveAll hrange

/-- A lease whose end is beyond what a row can hold stands in the way up to the latest moment, until
its owner shortens it to nothing. -/
def longLease : List (Nat × Request) :=
  [(0, .acquire "agent" "first" 0xffffffffffffffff),
    (Rows.latest - 1, .acquire "agent" "second" 10),
    (Rows.latest - 1, .heartbeat "agent" "first" 0),
    (Rows.latest - 1, .acquire "agent" "second" 10)]

/-- A database answers as a service in memory does, which can be worked out. -/
theorem serveAll_memory_eq_database_longLease :
    (∀ call ∈ longLease, call.1 < Rows.latest) ∧
      ((Backing.database {}).serveAll longLease).1.map (·.reply) =
        [.ok true, .ok false, .ok true, .ok true] := by
  have hrange : ∀ call ∈ longLease, call.1 < Rows.latest := by decide
  refine ⟨hrange, ?_⟩
  rw [← (serveAll_memory_eq_database hrange).1]
  rfl

end Lock

end EntityCache
