import EntityCache.Proofs.Lock.Backing

/-!
# A lock service grants what its history allows

A history is the list of the requests that a service has answered, oldest first.  By its history
alone it is said who holds a lock at a moment (`Holds`): the owner whose last grant has not run out
and has been followed neither by the owner's release nor by a grant to another owner.

The lease that a service records for a name is the grant that stands by the history (`Records`); one
lemma says so of each request, and induction on the requests of the whole history.  What a service
answers next is therefore decided by the history (`grantsByHistory`), whatever the clock readings
are.
-/

namespace EntityCache

namespace Lock

/-! ## Histories -/

/-- An answered request, with the clock reading at which it was made. -/
structure Entry where
  time : Nat
  request : Request
  reply : Except StoreError Bool

namespace Entry

/-- The owner was granted the lock, or had it extended, for this lifetime. -/
def Grants (e : Entry) (key owner : String) (lifetime : Nat) : Prop :=
  (e.request = .acquire key owner lifetime ∨ e.request = .heartbeat key owner lifetime) ∧
    e.reply = .ok true

/-- The owner released the lock, or another one acquired it. -/
def Ends (e : Entry) (key owner : String) : Prop :=
  e.request = .release key owner ∨
    ∃ other lifetime, other ≠ owner ∧ e.request = .acquire key other lifetime ∧ e.reply = .ok true

variable {e : Entry} {key owner other : String} {lifetime lifetime' : Nat}

theorem Grants.key_eq (h : e.Grants key owner lifetime) : e.request.key = key := by
  rcases h.1 with h | h <;> rw [h] <;> rfl

theorem Ends.key_eq (h : e.Ends key owner) : e.request.key = key := by
  rcases h with h | ⟨_, _, -, h, -⟩ <;> rw [h] <;> rfl

/-- A request grants one lock to one owner for one lifetime. -/
theorem Grants.unique (h : e.Grants key owner lifetime) (h' : e.Grants key other lifetime') :
    other = owner ∧ lifetime' = lifetime := by
  rcases h.1 with hrequest | hrequest <;> rcases h'.1 with hrequest' | hrequest' <;>
    rw [hrequest] at hrequest' <;> cases hrequest' <;> exact ⟨rfl, rfl⟩

end Entry

/-- The last grant of a lock to an owner lasts until `expires`, and has not been ended since. -/
def Standing (history : List Entry) (key owner : String) (expires : Nat) : Prop :=
  ∃ before e after lifetime, history = before ++ e :: after ∧ e.Grants key owner lifetime ∧
    expires = e.time + lifetime ∧
    ∀ later ∈ after, ¬later.Ends key owner ∧ ∀ lifetime, ¬later.Grants key owner lifetime

/-- An owner holds a lock at a moment. -/
def Holds (history : List Entry) (key owner : String) (now : Nat) : Prop :=
  ∃ expires, Standing history key owner expires ∧ now < expires

section Standing

variable {history : List Entry} {e : Entry} {key owner other : String} {expires lifetime : Nat}

theorem not_standing_nil : ¬Standing [] key owner expires := by
  rintro ⟨before, e, after, lifetime, heq, -⟩
  simp at heq

/-- A grant stands once it is made, and then until it is ended or made again. -/
theorem standing_concat :
    Standing (history ++ [e]) key owner expires ↔
      (∃ lifetime, e.Grants key owner lifetime ∧ expires = e.time + lifetime) ∨
        (Standing history key owner expires ∧ ¬e.Ends key owner ∧
          ∀ lifetime, ¬e.Grants key owner lifetime) := by
  constructor
  · rintro ⟨before, granted, after, lifetime, heq, hgrants, hexpires, hafter⟩
    rcases List.eq_nil_or_concat after with rfl | ⟨rest, last, rfl⟩
    · -- the last entry is the grant itself
      obtain ⟨-, hlast⟩ := List.append_inj' heq rfl
      obtain rfl : e = granted := (List.cons.inj hlast).1
      exact .inl ⟨lifetime, hgrants, hexpires⟩
    · rw [List.concat_eq_append, ← List.cons_append, ← List.append_assoc] at heq
      obtain ⟨hhistory, hlast⟩ := List.append_inj' heq rfl
      obtain rfl : e = last := (List.cons.inj hlast).1
      simp only [List.concat_eq_append, List.mem_append, List.mem_singleton] at hafter
      refine .inr ⟨⟨before, granted, rest, lifetime, hhistory, hgrants, hexpires, ?_⟩,
        hafter e (.inr rfl)⟩
      exact fun later hlater => hafter later (.inl hlater)
  · rintro (⟨lifetime, hgrants, hexpires⟩ | ⟨hstanding, hends, hgrants⟩)
    · exact ⟨history, e, [], lifetime, rfl, hgrants, hexpires, by simp⟩
    · obtain ⟨before, granted, after, lifetime, rfl, hgranted, hexpires, hafter⟩ := hstanding
      refine ⟨before, granted, after ++ [e], lifetime, by simp, hgranted, hexpires, ?_⟩
      intro later hlater
      rcases List.mem_append.1 hlater with hlater | hlater
      · exact hafter later hlater
      · obtain rfl := List.mem_singleton.1 hlater
        exact ⟨hends, hgrants⟩

/-- What neither grants nor ends a lock leaves its grants standing. -/
theorem standing_concat_of_other (hends : ¬e.Ends key owner)
    (hgrants : ∀ lifetime, ¬e.Grants key owner lifetime) :
    Standing (history ++ [e]) key owner expires ↔ Standing history key owner expires := by
  rw [standing_concat]
  constructor
  · rintro (⟨lifetime, hgranted, -⟩ | ⟨hstanding, -⟩)
    · exact absurd hgranted (hgrants lifetime)
    · exact hstanding
  · exact fun hstanding => .inr ⟨hstanding, hends, hgrants⟩

/-- A grant leaves no other one standing if it ends those of other owners, or there are none. -/
theorem standing_concat_of_grants (h : e.Grants key owner lifetime)
    (hothers : other ≠ owner → e.Ends key other ∨ ¬Standing history key other expires) :
    Standing (history ++ [e]) key other expires ↔ other = owner ∧ expires = e.time + lifetime := by
  rw [standing_concat]
  constructor
  · rintro (⟨lifetime', hgrants, rfl⟩ | ⟨hstanding, hends, hgrants⟩)
    · obtain ⟨hother, hlifetime⟩ := h.unique hgrants
      exact ⟨hother, hlifetime ▸ rfl⟩
    · by_cases hother : other = owner
      · exact absurd (hother ▸ h) (hgrants lifetime)
      · rcases hothers hother with hended | hnone
        · exact absurd hended hends
        · exact absurd hstanding hnone
  · rintro ⟨rfl, rfl⟩
    exact .inl ⟨lifetime, h, rfl⟩

/-- A request for another lock leaves the grants of this one standing. -/
theorem standing_concat_of_key_ne (h : e.request.key ≠ key) :
    Standing (history ++ [e]) key owner expires ↔ Standing history key owner expires :=
  standing_concat_of_other (fun hends => h hends.key_eq) fun _ hgrants => h hgrants.key_eq

end Standing

/-! ## Answers of an open service -/

namespace Backing

variable {b : Backing} {now lifetime : Nat} {key owner : String}

/-- An open service answers every request. -/
theorem serve_ok (h : b.IsOpen) (now : Nat) (r : Request) :
    ∃ granted, (b.serve now r).1 = .ok granted := by
  cases b with
  | memory leases => exact ⟨_, rfl⟩
  | database table =>
    have hopen : table.isOpen = true := h
    refine ⟨(table.rows.answer now r).1, ?_⟩
    simp only [serve, Database.service, if_pos hopen]

/-- An open service grants a lock where no other owner's lease is in force. -/
theorem serve_acquire_of_free (hsound : b.Sound) (hopen : b.IsOpen)
    (hfree : ∀ lease, b.lookup key = some lease → lease.expires ≤ now ∨ lease.owner = owner) :
    (b.serve now (.acquire key owner lifetime)).1 = .ok true := by
  cases b with
  | memory leases =>
    simp only [serve, Leases.service, Leases.answer]
    cases hlease : leases[key]? with
    | none => rfl
    | some lease =>
      have hheld : ¬(now < lease.expires ∧ lease.owner ≠ owner) := by
        rintro ⟨hlive, hother⟩
        -- a lease in force that is another's would contradict the hypothesis
        rcases hfree lease hlease with hexpired | howner
        · omega
        · exact hother howner
      simp only [if_neg hheld]
  | database table =>
    replace hopen : table.isOpen = true := hopen
    have hrow : (⟨key, owner, Rows.expiry now lifetime⟩ : Row).name = key := rfl
    obtain ⟨hcount, -⟩ :=
      Rows.upsert_spec hsound (fun r => r.expires ≤ now || r.owner == owner) hrow
    simp only [serve, Database.service, if_pos hopen, Rows.answer, Except.ok.injEq, beq_iff_eq,
      hcount]
    intro row hrow
    have hlookup : (database table).lookup key = some ⟨row.owner, row.expires⟩ := by
      rw [lookup, hrow, Option.map_some]
    simpa using hfree _ hlookup

/-- An open service takes away the owner's own lease of a name, and nothing else. -/
theorem lookup_release (hsound : b.Sound) (hopen : b.IsOpen) :
    (b.serve now (.release key owner)).2.lookup key =
      (b.lookup key).filter fun lease => lease.owner ≠ owner := by
  have hreleased := serve_release hsound now key owner
  -- without a lease there is nothing to release, in memory and in the table
  cases hlookup : b.lookup key with
  | some lease =>
    by_cases howner : lease.owner = owner
    · rw [hreleased.own hopen lease hlookup howner]
      simp [Option.filter, howner]
    · rw [hreleased.foreign lease hlookup howner]
      simp [Option.filter, howner]
  | none =>
    cases b with
    | memory leases =>
      replace hlookup : leases[key]? = none := hlookup
      simp only [serve, Leases.service, Leases.answer, hlookup]
      exact hlookup
    | database table =>
      replace hopen : table.isOpen = true := hopen
      replace hlookup : Rows.find key table.rows = none := Option.map_eq_none_iff.1 hlookup
      simp only [serve, Database.service, if_pos hopen, Rows.answer, lookup]
      rw [Rows.find_filter hsound, hlookup]
      rfl

/-- Within the range of a database both kinds reckon alike when a lock expires. -/
theorem expiry_eq (h : now + lifetime ≤ Rows.latest) : b.expiry now lifetime = now + lifetime := by
  cases b with
  | memory _ => rfl
  | database _ => exact Nat.min_eq_left h

end Backing

/-! ## Services and their histories -/

/-- The lifetime that a request asks for. -/
def Request.lifetime? : Request → Option Nat
  | acquire _ _ lifetime => some lifetime
  | heartbeat _ _ lifetime => some lifetime
  | release _ _ => none

/-- Answers requests one after another, each at its own clock reading. -/
def Backing.serveAll : List (Nat × Request) → Backing → List Entry × Backing
  | [], b => ([], b)
  | (now, r) :: rest, b =>
    let (reply, b) := b.serve now r
    let (history, b) := b.serveAll rest
    (⟨now, r, reply⟩ :: history, b)

/-- An open service records as leases what stands by the history. -/
structure Records (history : List Entry) (b : Backing) : Prop where
  sound : b.Sound
  isOpen : b.IsOpen
  lookup : ∀ key owner expires,
    b.lookup key = some ⟨owner, expires⟩ ↔ Standing history key owner expires

namespace Records

variable {history : List Entry} {b : Backing} {now lifetime : Nat} {key owner : String}

/-- A grant is recorded over what was recorded before; it ends the grants of other owners. -/
theorem acquire (h : Records history b) (hrange : now + lifetime ≤ Rows.latest) :
    Records (history ++ [⟨now, .acquire key owner lifetime,
      (b.serve now (.acquire key owner lifetime)).1⟩])
      (b.serve now (.acquire key owner lifetime)).2 := by
  have hacquired := Backing.serve_acquire h.sound now lifetime key owner
  refine ⟨hacquired.sound, hacquired.isOpen.2 h.isOpen, ?_⟩
  intro name other expires
  by_cases hname : name = key
  · subst hname
    -- a grant is the last one standing; a refusal changes neither the record nor the service
    by_cases hreply : (b.serve now (.acquire name owner lifetime)).1 = .ok true
    · have hgrants : (⟨now, .acquire name owner lifetime, _⟩ : Entry).Grants name owner lifetime :=
        ⟨.inl rfl, hreply⟩
      rw [hacquired.granted hreply, Backing.expiry_eq hrange, standing_concat_of_grants hgrants]
      · simp [eq_comm]
      · exact fun hother => .inl (.inr ⟨owner, lifetime, Ne.symm hother, rfl, hreply⟩)
    · rw [hacquired.refused hreply, h.lookup, standing_concat_of_other]
      · rintro (hrequest | ⟨_, _, -, -, hgranted⟩)
        · cases hrequest
        · exact hreply hgranted
      · exact fun _ hgrants => hreply hgrants.2
  · rw [hacquired.other name hname, h.lookup, standing_concat_of_key_ne (Ne.symm hname)]

/-- An extension is recorded in the place of the grant that it extends; no other one stands. -/
theorem heartbeat (h : Records history b) (hrange : now + lifetime ≤ Rows.latest) :
    Records (history ++ [⟨now, .heartbeat key owner lifetime,
      (b.serve now (.heartbeat key owner lifetime)).1⟩])
      (b.serve now (.heartbeat key owner lifetime)).2 := by
  have hextended := Backing.serve_heartbeat h.sound now lifetime key owner
  refine ⟨hextended.sound, hextended.isOpen.2 h.isOpen, ?_⟩
  intro name other expires
  by_cases hname : name = key
  · subst hname
    by_cases hreply : (b.serve now (.heartbeat name owner lifetime)).1 = .ok true
    · have hgrants :
          (⟨now, .heartbeat name owner lifetime, _⟩ : Entry).Grants name owner lifetime :=
        ⟨.inr rfl, hreply⟩
      -- a heartbeat is granted to the owner alone, so any other grant had ended before
      obtain ⟨lease, hlookup, howner, -⟩ := (hextended.answer h.isOpen).1 hreply
      rw [hextended.extended hreply, Backing.expiry_eq hrange, standing_concat_of_grants hgrants]
      · simp [eq_comm]
      · intro hother
        right
        rw [← h.lookup, hlookup, Option.some.injEq]
        rintro rfl
        exact hother howner
    · rw [hextended.refused hreply, h.lookup, standing_concat_of_other]
      · rintro (hrequest | ⟨_, _, -, hrequest, -⟩) <;> cases hrequest
      · exact fun _ hgrants => hreply hgrants.2
  · rw [hextended.other name hname, h.lookup, standing_concat_of_key_ne (Ne.symm hname)]

/-- A release takes the owner's grant away, and leaves those of other owners standing. -/
theorem release (h : Records history b) :
    Records (history ++ [⟨now, .release key owner, (b.serve now (.release key owner)).1⟩])
      (b.serve now (.release key owner)).2 := by
  have hreleased := Backing.serve_release h.sound now key owner
  refine ⟨hreleased.sound, hreleased.isOpen.2 h.isOpen, ?_⟩
  intro name other expires
  by_cases hname : name = key
  · subst hname
    rw [Backing.lookup_release h.sound h.isOpen, Option.filter_eq_some_iff, h.lookup]
    -- the owner's grant has ended, those of others stand as they stood
    by_cases hother : other = owner
    · subst hother
      refine iff_of_false (fun hkept => by simp at hkept) ?_
      rw [standing_concat]
      rintro (⟨lifetime, hgrants, -⟩ | ⟨-, hends, -⟩)
      · rcases hgrants.1 with hrequest | hrequest <;> cases hrequest
      · exact hends (.inl rfl)
    · rw [standing_concat_of_other]
      · simp [hother]
      · rintro (hrequest | ⟨_, _, -, hrequest, -⟩)
        · cases hrequest
          exact hother rfl
        · cases hrequest
      · rintro lifetime ⟨hrequest | hrequest, -⟩ <;> cases hrequest
  · rw [hreleased.other name hname, h.lookup, standing_concat_of_key_ne (Ne.symm hname)]

/-- Every request is recorded. -/
theorem serve (h : Records history b) (now : Nat) {r : Request}
    (hrange : ∀ lifetime ∈ r.lifetime?, now + lifetime ≤ Rows.latest) :
    Records (history ++ [⟨now, r, (b.serve now r).1⟩]) (b.serve now r).2 := by
  cases r with
  | acquire key owner lifetime => exact h.acquire (hrange lifetime rfl)
  | heartbeat key owner lifetime => exact h.heartbeat (hrange lifetime rfl)
  | release key owner => exact h.release

/-- So is every sequence of requests. -/
theorem serveAll (h : Records history b) {calls : List (Nat × Request)}
    (hrange : ∀ call ∈ calls, ∀ lifetime ∈ call.2.lifetime?, call.1 + lifetime ≤ Rows.latest) :
    Records (history ++ (b.serveAll calls).1) (b.serveAll calls).2 := by
  induction calls generalizing history b with
  | nil => simpa [Backing.serveAll] using h
  | cons call rest ih =>
    obtain ⟨now, r⟩ := call
    have hserve := h.serve now (hrange (now, r) List.mem_cons_self)
    have hrest := ih hserve fun call hcall => hrange call (List.mem_cons_of_mem _ hcall)
    rw [List.append_assoc] at hrest
    exact hrest

/-- A new service, of either kind, has no history and records no lease. -/
theorem new (h : b = .memory ∅ ∨ b = .database {}) : Records [] b := by
  have hnone (key : String) : b.lookup key = none := by
    rcases h with rfl | rfl
    · exact Std.ExtTreeMap.getElem?_empty
    · rfl
  refine ⟨?_, ?_, fun key owner expires => ?_⟩
  · rcases h with rfl | rfl
    · exact Backing.sound_memory ∅
    · exact List.nodup_nil
  · rcases h with rfl | rfl
    · trivial
    · rfl
  · rw [hnone]
    exact iff_of_false (by simp) not_standing_nil

/-! ## What the history decides -/

/-- On record, an owner holds a lock if its lease is there and has time left. -/
theorem holds_iff (h : Records history b) :
    Holds history key owner now ↔
      ∃ lease, b.lookup key = some lease ∧ lease.owner = owner ∧ now < lease.expires := by
  constructor
  · rintro ⟨expires, hstanding, hnow⟩
    exact ⟨⟨owner, expires⟩, (h.lookup _ _ _).2 hstanding, rfl, hnow⟩
  · rintro ⟨⟨_, expires⟩, hlookup, rfl, hnow⟩
    exact ⟨expires, (h.lookup _ _ _).1 hlookup, hnow⟩

/-- A lock has one holder at most. -/
theorem holds_unique (h : Records history b) {other : String} (howner : Holds history key owner now)
    (hother : Holds history key other now) : other = owner := by
  obtain ⟨lease, hlease, rfl, -⟩ := h.holds_iff.1 howner
  obtain ⟨lease', hlease', rfl, -⟩ := h.holds_iff.1 hother
  rw [Option.some.inj (hlease.symm.trans hlease')]

/-- A lock is granted unless another owner holds it. -/
theorem acquire_eq_true_iff (h : Records history b) :
    (b.serve now (.acquire key owner lifetime)).1 = .ok true ↔
      ∀ other, Holds history key other now → other = owner := by
  constructor
  · intro hreply other hother
    obtain ⟨lease, hlease, rfl, hlive⟩ := h.holds_iff.1 hother
    rcases (Backing.serve_acquire h.sound now lifetime key owner).free hreply lease hlease with
      hexpired | howner
    · omega
    · exact howner
  · intro hothers
    apply Backing.serve_acquire_of_free h.sound h.isOpen
    intro lease hlease
    by_cases hlive : now < lease.expires
    · exact .inr (hothers lease.owner (h.holds_iff.2 ⟨lease, hlease, rfl, hlive⟩))
    · exact .inl (Nat.le_of_not_lt hlive)

/-- A lock is extended if the owner holds it. -/
theorem heartbeat_eq_true_iff (h : Records history b) :
    (b.serve now (.heartbeat key owner lifetime)).1 = .ok true ↔ Holds history key owner now := by
  rw [h.holds_iff]
  exact (Backing.serve_heartbeat h.sound now lifetime key owner).answer h.isOpen

/-- A release by an owner that does not hold the lock changes nothing from that moment on. -/
theorem holds_release_iff (h : Records history b) (hnot : ¬Holds history key owner now)
    {name other : String} {later : Nat} (hlater : now ≤ later) :
    Holds (history ++ [⟨now, .release key owner, (b.serve now (.release key owner)).1⟩])
      name other later ↔ Holds history name other later := by
  rw [h.release.holds_iff, h.holds_iff]
  by_cases hname : name = key
  · subst hname
    simp only [Backing.lookup_release h.sound h.isOpen, Option.filter_eq_some_iff,
      decide_eq_true_eq]
    constructor
    · rintro ⟨lease, ⟨hlease, -⟩, hother, hlive⟩
      exact ⟨lease, hlease, hother, hlive⟩
    · rintro ⟨lease, hlease, hother, hlive⟩
      refine ⟨lease, ⟨hlease, fun howner => hnot ?_⟩, hother, hlive⟩
      exact h.holds_iff.2 ⟨lease, hlease, howner, Nat.lt_of_le_of_lt hlater hlive⟩
  · rw [(Backing.serve_release h.sound now key owner).other name hname]

end Records

/-- What a service does at a moment is decided by its history: it refuses a lock exactly if another
owner holds it, and extends it exactly for its holder; a release by another owner changes nothing,
and there is never more than one holder. -/
structure GrantsByHistory (history : List Entry) (b : Backing) (now : Nat) : Prop where
  acquire : ∀ key owner lifetime, ∃ granted,
    (b.serve now (.acquire key owner lifetime)).1 = .ok granted ∧
      (granted = false ↔ ∃ other, other ≠ owner ∧ Holds history key other now)
  heartbeat : ∀ key owner lifetime, ∃ granted,
    (b.serve now (.heartbeat key owner lifetime)).1 = .ok granted ∧
      (granted = true ↔ Holds history key owner now)
  release : ∀ key owner, ∃ answer, (b.serve now (.release key owner)).1 = .ok answer ∧
    (¬Holds history key owner now → ∀ name other later, now ≤ later →
      (Holds (history ++ [⟨now, .release key owner, .ok answer⟩]) name other later ↔
        Holds history name other later))
  unique : ∀ key owner other, Holds history key owner now → Holds history key other now →
    other = owner

/-- A service on record answers every request by its history. -/
theorem Records.grantsByHistory {history : List Entry} {b : Backing} (h : Records history b)
    (now : Nat) : GrantsByHistory history b now where
  acquire key owner lifetime := by
    obtain ⟨granted, hreply⟩ := Backing.serve_ok h.isOpen now (.acquire key owner lifetime)
    have hgranted : granted = true ↔ ∀ other, Holds history key other now → other = owner := by
      rw [← h.acquire_eq_true_iff, hreply, Except.ok.injEq]
    refine ⟨granted, hreply, ?_⟩
    -- refused means that some other owner holds the lock
    rw [← Bool.not_eq_true, hgranted, not_forall]
    exact exists_congr fun other => by rw [Classical.not_imp, and_comm, ne_eq]
  heartbeat key owner lifetime := by
    obtain ⟨granted, hreply⟩ := Backing.serve_ok h.isOpen now (.heartbeat key owner lifetime)
    refine ⟨granted, hreply, ?_⟩
    rw [← h.heartbeat_eq_true_iff, hreply, Except.ok.injEq]
  release key owner := by
    obtain ⟨answer, hreply⟩ := Backing.serve_ok h.isOpen now (.release key owner)
    refine ⟨answer, hreply, fun hnot name other later hlater => ?_⟩
    rw [← hreply]
    exact h.holds_release_iff hnot hlater
  unique _ _ _ howner hother := h.holds_unique howner hother

/-- A lock service that is new, in memory or in a database, grants by its history after every
sequence of requests, at whatever clock readings they come, as long as no lock is to expire beyond
the range of a database. -/
theorem grantsByHistory_serveAll {b : Backing} (hnew : b = .memory ∅ ∨ b = .database {})
    {calls : List (Nat × Request)}
    (hrange : ∀ call ∈ calls, ∀ lifetime ∈ call.2.lifetime?, call.1 + lifetime ≤ Rows.latest)
    (now : Nat) : GrantsByHistory (b.serveAll calls).1 (b.serveAll calls).2 now :=
  ((Records.new hnew).serveAll hrange).grantsByHistory now

/-- A lock that is taken over when it has run out, whose first owner then tries to extend and to
release it. -/
theorem grantsByHistory_takeover :
    GrantsByHistory
      ((Backing.database {}).serveAll [(0, .acquire "agent" "first" 10),
        (10, .acquire "agent" "second" 10), (11, .heartbeat "agent" "first" 10),
        (12, .release "agent" "first")]).1
      ((Backing.database {}).serveAll [(0, .acquire "agent" "first" 10),
        (10, .acquire "agent" "second" 10), (11, .heartbeat "agent" "first" 10),
        (12, .release "agent" "first")]).2 13 :=
  grantsByHistory_serveAll (.inr rfl) (by decide +kernel) 13

end Lock

end EntityCache
