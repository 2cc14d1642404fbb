import EntityCache.Lock.Faulty
import Mathlib.Data.List.Basic
import Mathlib.Data.List.Nodup
import Mathlib.Data.String.Basic

/-!
# What a lock service records

A lock service of either kind records for every name at most one lease (`Backing.lookup`), and every
request changes the lease of its own name only.  The table of a database has to be `Sound` for this:
no two rows have the same name, which every request keeps up.

`Backing.Acquired`, `Backing.Extended` and `Backing.Released` say what the three requests answer and
leave behind, in the same words for both kinds.
-/

namespace EntityCache

namespace Lock

/-! ## Rows -/

namespace Rows

variable {rows : Rows} {name other : String} {row : Row}

/-- The first row of a name. -/
def find (name : String) (rows : Rows) : Option Row := List.find? (·.name == name) rows

/-- No two rows have the same name. -/
def Distinct (rows : Rows) : Prop := (List.map (·.name) rows).Nodup

theorem find_cons (name : String) (row : Row) (rows : Rows) :
    find name (row :: rows) = if row.name = name then some row else find name rows := by
  by_cases h : row.name = name
  · simp [find, h]
  · simp [find, h, List.find?_cons_of_neg]

theorem name_of_find (h : find name rows = some row) : row.name = name := by
  simpa using List.find?_some h

theorem find_eq_none : find name rows = none ↔ ∀ row ∈ rows, row.name ≠ name := by
  simp [find, List.find?_eq_none]

/-- Changing rows without changing their names changes what is found in the same way. -/
theorem find_map {change : Row → Row} (hname : ∀ row, (change row).name = row.name)
    (name : String) (rows : Rows) :
    find name (List.map change rows) = (find name rows).map change := by
  induction rows with
  | nil => rfl
  | cons row rows ih =>
    rw [List.map_cons, find_cons, find_cons, hname, ih]
    split <;> rfl

theorem Distinct.map {change : Row → Row} (hname : ∀ row, (change row).name = row.name)
    (h : Distinct rows) : Distinct (List.map change rows) := by
  have hnames : List.map (·.name) (List.map change rows) = List.map (·.name) rows := by
    rw [List.map_map]
    exact List.map_congr_left fun row _ => hname row
  rw [Distinct, hnames]
  exact h

/-- Behind the row of a name there is no other one. -/
theorem Distinct.find_tail (h : Distinct (row :: rows)) : find row.name rows = none := by
  rw [find_eq_none]
  intro r hr heq
  exact (List.nodup_cons.1 h).1 (List.mem_map.2 ⟨r, hr, heq⟩)

theorem Distinct.tail (h : Distinct (row :: rows)) : Distinct rows := (List.nodup_cons.1 h).2

/-- Among distinct rows the one of a name is the only one. -/
theorem filter_name (h : Distinct rows) (name : String) (p : Row → Bool) :
    List.filter (fun r => r.name == name && p r) rows =
      ((find name rows).filter p).toList := by
  induction rows with
  | nil => rfl
  | cons row rows ih =>
    rw [List.filter_cons, find_cons, ih h.tail]
    by_cases hname : row.name = name
    · have hnone : find name rows = none := hname ▸ h.find_tail
      cases hp : p row <;> simp [hname, hnone, hp, Option.filter]
    · simp [hname]

/-- An update touches the row of its name that satisfies `p`, and says whether there is one. -/
theorem update_spec (h : Distinct rows) (name : String) (p : Row → Bool) {change : Row → Row}
    (hname : ∀ row, (change row).name = row.name) :
    ((rows.update (fun r => r.name == name && p r) change).1 = 1 ↔
      ∃ row, find name rows = some row ∧ p row = true) ∧
    Distinct (rows.update (fun r => r.name == name && p r) change).2 ∧
    ∀ other, find other (rows.update (fun r => r.name == name && p r) change).2 =
      (find other rows).map fun r => if r.name == name && p r then change r else r := by
  have hkeep (row : Row) : (if row.name == name && p row then change row else row).name =
      row.name := by
    split
    · exact hname row
    · rfl
  refine ⟨?_, h.map hkeep, fun other => find_map hkeep other rows⟩
  rw [update, filter_name h]
  cases hfind : find name rows with
  | none => simp
  | some row => cases hp : p row <;> simp [Option.filter, hp]

/-- Among distinct rows, taking rows away takes away what is found. -/
theorem find_filter (h : Distinct rows) (keep : Row → Bool) (name : String) :
    find name (List.filter keep rows) = (find name rows).filter keep := by
  induction rows with
  | nil => rfl
  | cons row rows ih =>
    rw [List.filter_cons, find_cons]
    by_cases hname : row.name = name
    · have hnone : find name rows = none := hname ▸ h.find_tail
      cases hkeep : keep row with
      | true => simp [find_cons, hname, Option.filter, hkeep]
      | false => simp [ih h.tail, hnone, hname, Option.filter, hkeep]
    · rw [if_neg hname, ← ih h.tail]
      split
      · rw [find_cons, if_neg hname]
      · rfl

theorem Distinct.filter (h : Distinct rows) (keep : Row → Bool) :
    Distinct (List.filter keep rows) :=
  List.Nodup.sublist (List.filter_sublist.map _) h

/-- A new row of a name that is not there is found, beside the rows that are. -/
theorem find_append (h : find name rows = none) (hrow : row.name = name) (other : String) :
    find other (rows ++ [row]) = if other = name then some row else find other rows := by
  rw [find, List.find?_append]
  by_cases hother : other = name
  · subst hother
    unfold find at h
    simp [h, hrow]
  · have hne : name ≠ other := Ne.symm hother
    simp [hrow, hne, hother, find]

theorem Distinct.append (h : Distinct rows) (hnone : find name rows = none)
    (hrow : row.name = name) : Distinct (rows ++ [row]) := by
  rw [Distinct, List.map_append, List.nodup_append]
  refine ⟨h, by simp, ?_⟩
  intro a ha b hb heq
  obtain ⟨r, hr, rfl⟩ := List.mem_map.1 ha
  simp only [List.map_cons, List.map_nil, List.mem_singleton] at hb
  exact find_eq_none.1 hnone r hr (heq.trans (hb.trans hrow))

/-- An upsert writes its row unless another row of the name stands in the way, and says whether it
does. -/
theorem upsert_spec (h : Distinct rows) (p : Row → Bool) (hrow : row.name = name) :
    ((rows.upsert p row).1 = 1 ↔ ∀ r, find name rows = some r → p r = true) ∧
    Distinct (rows.upsert p row).2 ∧
    ∀ other, find other (rows.upsert p row).2 =
      if other = name ∧ (∀ r, find name rows = some r → p r = true) then some row
      else find other rows := by
  subst hrow
  unfold upsert
  cases hfind : find row.name rows with
  | none =>
    have hany : rows.any (·.name == row.name) = false := by
      simpa using find_eq_none.1 hfind
    rw [if_neg (by simp [hany])]
    -- there is no row of the name, and a new one is appended
    refine ⟨by simp, h.append hfind rfl, ?_⟩
    intro other
    rw [find_append hfind rfl]
    simp
  | some r =>
    have hany : rows.any (·.name == row.name) = true := by
      rw [List.any_eq_true]
      exact ⟨r, List.mem_of_find?_eq_some hfind, by simp [name_of_find hfind]⟩
    have hkeep (r : Row) : (if r.name == row.name && p r then row else r).name = r.name := by
      split
      case isTrue h => simp only [Bool.and_eq_true, beq_iff_eq] at h; exact h.1.symm
      case isFalse => rfl
    rw [if_pos hany]
    refine ⟨?_, h.map hkeep, ?_⟩
    · rw [filter_name h, hfind]
      cases hp : p r <;> simp [Option.filter, hp]
    · intro other
      rw [find_map hkeep]
      by_cases hother : other = row.name
      · subst hother
        have hname := name_of_find hfind
        cases hp : p r <;> simp [hfind, hname, hp]
      · cases hfound : find other rows with
        | none => simp [hother]
        | some r' =>
          have hne : r'.name ≠ row.name := name_of_find hfound ▸ hother
          simp [hother, hne]

end Rows

/-! ## A service of either kind -/

namespace Backing

variable {b : Backing} {now lifetime : Nat} {key owner : String}

/-- The lease that is recorded for a name, expired or not. -/
def lookup (key : String) : Backing → Option Lease
  | memory leases => leases[key]?
  | database table => (Rows.find key table.rows).map fun row => ⟨row.owner, row.expires⟩

/-- The moment at which a lock expires that is granted or extended now. -/
def expiry (now lifetime : Nat) : Backing → Nat
  | memory _ => now + lifetime
  | database _ => Rows.expiry now lifetime

/-- A database can still record moments to come. -/
def InRange (now : Nat) : Backing → Prop
  | memory _ => True
  | database _ => now < Rows.latest

instance (now : Nat) : (b : Backing) → Decidable (b.InRange now)
  | memory _ => inferInstanceAs (Decidable True)
  | database _ => inferInstanceAs (Decidable (now < Rows.latest))

/-- The table of a database has one row for each name. -/
def Sound : Backing → Prop
  | memory _ => True
  | database table => Rows.Distinct table.rows

/-- Requests are carried out: a database is open. -/
def IsOpen : Backing → Prop
  | memory _ => True
  | database table => table.isOpen = true

/-- What no request changes: how moments of expiry are reckoned, and whether the service is open. -/
structure Alike (b b' : Backing) : Prop where
  sound : b'.Sound
  expiry : ∀ now lifetime, b'.expiry now lifetime = b.expiry now lifetime
  isOpen : b'.IsOpen ↔ b.IsOpen

/-- An acquisition is granted unless another owner's lease is in force. -/
structure Acquired (now lifetime : Nat) (key owner : String) (b : Backing)
    (reply : Except StoreError Bool) (b' : Backing) : Prop extends Alike b b' where
  opened : reply = .ok true → b.IsOpen
  free : reply = .ok true → ∀ lease, b.lookup key = some lease →
    lease.expires ≤ now ∨ lease.owner = owner
  granted : reply = .ok true → b'.lookup key = some ⟨owner, b.expiry now lifetime⟩
  refused : reply ≠ .ok true → b'.lookup key = b.lookup key
  other : ∀ name, name ≠ key → b'.lookup name = b.lookup name

/-- A heartbeat that is answered with `true` restarts the lifetime of a lease, and any other leaves
it alone. -/
structure Renewed (now lifetime : Nat) (key owner : String) (b : Backing)
    (reply : Except StoreError Bool) (b' : Backing) : Prop extends Alike b b' where
  extended : reply = .ok true → b'.lookup key = some ⟨owner, b.expiry now lifetime⟩
  refused : reply ≠ .ok true → b'.lookup key = b.lookup key
  other : ∀ name, name ≠ key → b'.lookup name = b.lookup name

/-- An owner's lease in force is extended, and no other. -/
structure Extended (now lifetime : Nat) (key owner : String) (b : Backing)
    (reply : Except StoreError Bool) (b' : Backing) : Prop
    extends Renewed now lifetime key owner b reply b' where
  answer : b.IsOpen → (reply = .ok true ↔
    ∃ lease, b.lookup key = some lease ∧ lease.owner = owner ∧ now < lease.expires)

/-- No lease but an owner's own is taken away. -/
structure Spared (key owner : String) (b b' : Backing) : Prop extends Alike b b' where
  foreign : ∀ lease, b.lookup key = some lease → lease.owner ≠ owner → b'.lookup key = some lease
  other : ∀ name, name ≠ key → b'.lookup name = b.lookup name

/-- An owner's lease is taken away, and no other. -/
structure Released (key owner : String) (b b' : Backing) : Prop extends Spared key owner b b' where
  own : b.IsOpen → ∀ lease, b.lookup key = some lease → lease.owner = owner →
    b'.lookup key = none

/-- In range, a lease that has time left is not cut short at the end of time. -/
theorem lt_expiry {start : Nat} (hrange : b.InRange now) (hlt : now < start + lifetime) :
    now < b.expiry start lifetime := by
  cases b with
  | memory leases => exact hlt
  | database table => exact Nat.lt_min.2 ⟨hlt, hrange⟩

/-- A lease never lasts longer than asked for. -/
theorem expiry_le (b : Backing) (now lifetime : Nat) : b.expiry now lifetime ≤ now + lifetime := by
  cases b with
  | memory leases => exact Nat.le_refl _
  | database table => exact Nat.min_le_left _ _

/-- Against a lease in force no other owner's acquisition is granted. -/
theorem Acquired.ne_of_force {reply : Except StoreError Bool} {b' : Backing}
    (h : Acquired now lifetime key owner b reply b') {lease : Lease}
    (hrecorded : b.lookup key = some lease) (hforce : now < lease.expires)
    (hforeign : owner ≠ lease.owner) : reply ≠ .ok true := by
  intro hgranted
  rcases h.free hgranted lease hrecorded with hexpired | howner
  · omega
  · exact hforeign howner.symm

theorem Alike.refl (h : b.Sound) : Alike b b := ⟨h, fun _ _ => rfl, Iff.rfl⟩

theorem alike_memory (leases leases' : Leases) : Alike (memory leases) (memory leases') :=
  ⟨trivial, fun _ _ => rfl, Iff.rfl⟩

theorem alike_database {table : Database} {rows : Rows} (h : Rows.Distinct rows) :
    Alike (database table) (database { table with rows }) :=
  ⟨h, fun _ _ => rfl, Iff.rfl⟩

/-- A lock that is not granted leaves everything as it was. -/
theorem acquired_self (h : b.Sound) {reply : Except StoreError Bool} (hreply : reply ≠ .ok true) :
    Acquired now lifetime key owner b reply b :=
  ⟨.refl h, fun heq => absurd heq hreply, fun heq => absurd heq hreply,
    fun heq => absurd heq hreply, fun _ => rfl, fun _ _ => rfl⟩

/-- A lock that is not extended leaves everything as it was. -/
theorem renewed_self (h : b.Sound) {reply : Except StoreError Bool} (hreply : reply ≠ .ok true) :
    Renewed now lifetime key owner b reply b :=
  ⟨.refl h, fun heq => absurd heq hreply, fun _ => rfl, fun _ _ => rfl⟩

/-- A heartbeat that fails changes nothing. -/
theorem extended_self (h : b.Sound) {reply : Except StoreError Bool} (hreply : reply ≠ .ok true)
    (hnone : b.IsOpen →
      ¬∃ lease, b.lookup key = some lease ∧ lease.owner = owner ∧ now < lease.expires) :
    Extended now lifetime key owner b reply b :=
  ⟨renewed_self h hreply, fun hopen => iff_of_false hreply (hnone hopen)⟩

theorem Spared.refl (h : b.Sound) (key owner : String) : Spared key owner b b :=
  ⟨.refl h, fun _ hlease _ => hlease, fun _ _ => rfl⟩

/-! ### In memory -/

theorem sound_memory (leases : Leases) : (memory leases).Sound := trivial

theorem lookup_insert (leases : Leases) (key : String) (lease : Lease) (name : String) :
    (memory (leases.insert key lease)).lookup name =
      if name = key then some lease else (memory leases).lookup name := by
  by_cases hname : name = key
  · subst hname
    simp [lookup]
  · have hne : key ≠ name := Ne.symm hname
    simp [lookup, Std.ExtTreeMap.getElem?_insert, hname, hne]

theorem lookup_erase (leases : Leases) (key name : String) :
    (memory (leases.erase key)).lookup name =
      if name = key then none else (memory leases).lookup name := by
  by_cases hname : name = key
  · subst hname
    simp [lookup]
  · have hne : key ≠ name := Ne.symm hname
    simp [lookup, Std.ExtTreeMap.getElem?_erase, hname, hne]

/-- A lease is written, over none, an expired one or one of the owner's. -/
theorem acquired_insert {leases : Leases} (hfree : ∀ lease, leases[key]? = some lease →
      ¬(now < lease.expires ∧ lease.owner ≠ owner)) :
    Acquired now lifetime key owner (memory leases) (.ok true)
      (memory (leases.insert key ⟨owner, now + lifetime⟩)) := by
  refine ⟨alike_memory _ _, fun _ => trivial, ?_, ?_, fun hne => absurd rfl hne, ?_⟩
  · intro _ lease hlease
    rcases not_and_or.1 (hfree lease hlease) with hexpired | howner
    · exact .inl (Nat.le_of_not_lt hexpired)
    · exact .inr (not_not.1 howner)
  · intro _
    rw [lookup_insert, if_pos rfl]
    rfl
  · intro name hname
    rw [lookup_insert, if_neg hname]

theorem serve_acquire_memory (leases : Leases) (now lifetime : Nat) (key owner : String) :
    Acquired now lifetime key owner (memory leases)
      ((memory leases).serve now (.acquire key owner lifetime)).1
      ((memory leases).serve now (.acquire key owner lifetime)).2 := by
  simp only [serve, Leases.service, Leases.answer]
  cases hlease : leases[key]? with
  | none => exact acquired_insert (by simp [hlease])
  | some lease =>
    by_cases hheld : now < lease.expires ∧ lease.owner ≠ owner
    · simp only [if_pos hheld]
      exact acquired_self (sound_memory leases) (by simp)
    · simp only [if_neg hheld]
      exact acquired_insert (by simpa [hlease] using hheld)

theorem serve_heartbeat_memory (leases : Leases) (now lifetime : Nat) (key owner : String) :
    Extended now lifetime key owner (memory leases)
      ((memory leases).serve now (.heartbeat key owner lifetime)).1
      ((memory leases).serve now (.heartbeat key owner lifetime)).2 := by
  simp only [serve, Leases.service, Leases.answer]
  cases hlease : leases[key]? with
  | none => exact extended_self (sound_memory leases) (by simp) (by simp [lookup, hlease])
  | some lease =>
    -- a lease of the owner that is in force is replaced, any other stays
    by_cases hheld : lease.owner = owner ∧ now < lease.expires
    · simp only [if_pos hheld]
      refine ⟨⟨alike_memory _ _, ?_, fun hne => absurd rfl hne, ?_⟩, ?_⟩
      · intro _
        rw [lookup_insert, if_pos rfl, hheld.1]
        rfl
      · intro name hname
        rw [lookup_insert, if_neg hname]
      · intro _
        exact iff_of_true rfl ⟨lease, hlease, hheld⟩
    · simp only [if_neg hheld]
      refine extended_self (sound_memory leases) (by simp) fun _ => ?_
      simpa [lookup, hlease] using hheld

theorem serve_release_memory (leases : Leases) (now : Nat) (key owner : String) :
    Released key owner (memory leases) ((memory leases).serve now (.release key owner)).2 := by
  simp only [serve, Leases.service, Leases.answer]
  cases hlease : leases[key]? with
  | none =>
    refine ⟨.refl (sound_memory leases) key owner, fun _ lease hlease' => ?_⟩
    simp [lookup, hlease] at hlease'
  | some lease =>
    have hlookup : (memory leases).lookup key = some lease := hlease
    -- the owner's lease is taken away, whether it has expired or not
    by_cases howner : lease.owner = owner
    · simp only [if_pos howner]
      refine ⟨⟨alike_memory _ _, ?_, ?_⟩, ?_⟩
      · intro lease' hlease' hne
        obtain rfl := Option.some.inj (hlookup.symm.trans hlease')
        exact absurd howner hne
      · intro name hname
        rw [lookup_erase, if_neg hname]
      · intro _ _ _ _
        rw [lookup_erase, if_pos rfl]
    · simp only [if_neg howner]
      refine ⟨.refl (sound_memory leases) key owner, ?_⟩
      intro _ lease' hlease' heq
      obtain rfl := Option.some.inj (hlookup.symm.trans hlease')
      exact absurd heq howner

/-! ### In a database -/

variable {table : Database}

/-- The statement changes one row if and only if no foreign lease is in force. -/
theorem serve_acquire_database (h : (database table).Sound) (now lifetime : Nat)
    (key owner : String) :
    Acquired now lifetime key owner (database table)
      ((database table).serve now (.acquire key owner lifetime)).1
      ((database table).serve now (.acquire key owner lifetime)).2 := by
  simp only [serve, Database.service]
  by_cases hopen : table.isOpen = true
  · have hrow : (⟨key, owner, Rows.expiry now lifetime⟩ : Row).name = key := rfl
    -- the condition of the statement says when the row may be taken over
    obtain ⟨hcount, hdistinct, hfind⟩ :=
      Rows.upsert_spec h (fun r => r.expires ≤ now || r.owner == owner) hrow
    simp only [if_pos hopen, Rows.answer]
    refine ⟨alike_database hdistinct, fun _ => hopen, ?_, ?_, ?_, ?_⟩
    · intro hreply lease hlease
      obtain ⟨row, hrow, rfl⟩ := Option.map_eq_some_iff.1 hlease
      have hfree := hcount.1 (by simpa using hreply) row hrow
      simpa using hfree
    · intro hreply
      have hgrant := hcount.1 (by simpa using hreply)
      rw [lookup, hfind, if_pos ⟨rfl, hgrant⟩]
      rfl
    · intro hreply
      have hrefused := mt hcount.2 (by simpa using hreply)
      rw [lookup, hfind, if_neg fun h => hrefused h.2]
      rfl
    · intro name hname
      rw [lookup, hfind, if_neg fun h => hname h.1]
      rfl
  · simp only [if_neg hopen]
    exact acquired_self h (by simp)

/-- The statement changes one row if and only if a lease of the owner is in force. -/
theorem serve_heartbeat_database (h : (database table).Sound) (now lifetime : Nat)
    (key owner : String) :
    Extended now lifetime key owner (database table)
      ((database table).serve now (.heartbeat key owner lifetime)).1
      ((database table).serve now (.heartbeat key owner lifetime)).2 := by
  simp only [serve, Database.service]
  by_cases hopen : table.isOpen = true
  · have hkeep (row : Row) : ({ row with expires := Rows.expiry now lifetime } : Row).name =
        row.name := rfl
    -- one row at most is updated, and the count says whether it was
    obtain ⟨hcount, hdistinct, hfind⟩ :=
      Rows.update_spec h key (fun r => r.owner == owner && now < r.expires) hkeep
    simp only [if_pos hopen, Rows.answer, Bool.and_assoc]
    refine ⟨⟨alike_database hdistinct, ?_, ?_, ?_⟩, ?_⟩
    · intro hreply
      obtain ⟨row, hrow, hp⟩ := hcount.1 (by simpa using hreply)
      have howner : row.owner = owner := by
        simp only [Bool.and_eq_true, beq_iff_eq] at hp
        exact hp.1
      have hboth : (row.name == key && (row.owner == owner && decide (now < row.expires))) =
          true := by
        rw [Rows.name_of_find hrow, hp]
        simp
      rw [lookup, hfind, hrow, Option.map_some, if_pos hboth, Option.map_some, howner]
      rfl
    · intro hreply
      have hrefused := mt hcount.2 (by simpa using hreply)
      rw [lookup, hfind, lookup]
      cases hrow : Rows.find key table.rows with
      | none => rfl
      | some row =>
        rw [Option.map_some, if_neg]
        simp only [Bool.and_eq_true]
        exact fun hp => hrefused ⟨row, hrow, by simpa using hp.2⟩
    · intro name hname
      rw [lookup, hfind, lookup]
      cases hrow : Rows.find name table.rows with
      | none => rfl
      | some row =>
        have hne : row.name ≠ key := Rows.name_of_find hrow ▸ hname
        simp [hne]
    · intro _
      simp only [Except.ok.injEq, beq_iff_eq, hcount, lookup, Bool.and_eq_true,
        decide_eq_true_eq, Option.map_eq_some_iff]
      constructor
      · rintro ⟨row, hrow, howner, hlive⟩
        exact ⟨_, ⟨row, hrow, rfl⟩, howner, hlive⟩
      · rintro ⟨_, ⟨row, hrow, rfl⟩, howner, hlive⟩
        exact ⟨row, hrow, howner, hlive⟩
  · simp only [if_neg hopen]
    exact extended_self h (by simp) fun h => absurd h hopen

theorem serve_release_database (h : (database table).Sound) (now : Nat) (key owner : String) :
    Released key owner (database table)
      ((database table).serve now (.release key owner)).2 := by
  simp only [serve, Database.service]
  by_cases hopen : table.isOpen = true
  · simp only [if_pos hopen, Rows.answer]
    -- a row stays unless both its name and its owner are those of the request
    have hfind (name : String) := Rows.find_filter h
      (fun r => !(r.name == key && r.owner == owner)) name
    refine ⟨⟨alike_database (Rows.Distinct.filter h _), ?_, ?_⟩, ?_⟩
    · intro lease hlease hne
      obtain ⟨row, hrow, rfl⟩ := Option.map_eq_some_iff.1 hlease
      rw [lookup, hfind, hrow]
      simp [Option.filter, show ¬row.owner = owner from hne]
    · intro name hname
      rw [lookup, hfind, lookup]
      cases hrow : Rows.find name table.rows with
      | none => rfl
      | some row =>
        have hne : row.name ≠ key := Rows.name_of_find hrow ▸ hname
        simp [Option.filter, hne]
    · intro _ lease hlease howner
      obtain ⟨row, hrow, rfl⟩ := Option.map_eq_some_iff.1 hlease
      rw [lookup, hfind, hrow]
      simp [Option.filter, Rows.name_of_find hrow, show row.owner = owner from howner]
  · simp only [if_neg hopen]
    exact ⟨.refl h key owner, fun h => absurd h hopen⟩

/-! ### Of either kind -/

/-- What an acquisition does. -/
theorem serve_acquire (h : b.Sound) (now lifetime : Nat) (key owner : String) :
    Acquired now lifetime key owner b (b.serve now (.acquire key owner lifetime)).1
      (b.serve now (.acquire key owner lifetime)).2 := by
  cases b with
  | memory leases => exact serve_acquire_memory leases now lifetime key owner
  | database table => exact serve_acquire_database h now lifetime key owner

/-- What a heartbeat does. -/
theorem serve_heartbeat (h : b.Sound) (now lifetime : Nat) (key owner : String) :
    Extended now lifetime key owner b (b.serve now (.heartbeat key owner lifetime)).1
      (b.serve now (.heartbeat key owner lifetime)).2 := by
  cases b with
  | memory leases => exact serve_heartbeat_memory leases now lifetime key owner
  | database table => exact serve_heartbeat_database h now lifetime key owner

/-- What a release does. -/
theorem serve_release (h : b.Sound) (now : Nat) (key owner : String) :
    Released key owner b (b.serve now (.release key owner)).2 := by
  cases b with
  | memory leases => exact serve_release_memory leases now key owner
  | database table => exact serve_release_database h now key owner

/-- No request changes how the service reckons, or whether it is open. -/
theorem alike_serve (h : b.Sound) (now : Nat) (r : Request) : Alike b (b.serve now r).2 := by
  cases r with
  | acquire key owner lifetime => exact (serve_acquire h now lifetime key owner).toAlike
  | heartbeat key owner lifetime => exact (serve_heartbeat h now lifetime key owner).toAlike
  | release key owner => exact (serve_release h now key owner).toAlike

/-- A request changes no lock but its own. -/
theorem lookup_serve_of_ne (h : b.Sound) (now : Nat) {r : Request} (hkey : key ≠ r.key) :
    (b.serve now r).2.lookup key = b.lookup key := by
  cases r with
  | acquire name owner lifetime => exact (serve_acquire h now lifetime name owner).other key hkey
  | heartbeat name owner lifetime =>
    exact (serve_heartbeat h now lifetime name owner).other key hkey
  | release name owner => exact (serve_release h now name owner).other key hkey

/-- A lease in force is as it was after a request for another lock, or by another owner. -/
theorem lookup_serve_of_foreign (h : b.Sound) (hopen : b.IsOpen) {lease : Lease}
    (hrecorded : b.lookup key = some lease) (hforce : now < lease.expires) {r : Request}
    (hforeign : r.key = key → r.owner ≠ lease.owner) :
    (b.serve now r).2.lookup key = some lease := by
  by_cases hkey : key = r.key
  case neg => exact (lookup_serve_of_ne h now hkey).trans hrecorded
  subst hkey
  have hother := hforeign rfl
  cases r with
  | acquire name other lifetime =>
    have hacquired := serve_acquire h now lifetime name other
    exact (hacquired.refused (hacquired.ne_of_force hrecorded hforce hother)).trans hrecorded
  | heartbeat name other lifetime =>
    have hextended := serve_heartbeat h now lifetime name other
    refine (hextended.refused fun htrue => ?_).trans hrecorded
    obtain ⟨lease', hlease', howner, -⟩ := (hextended.answer hopen).1 htrue
    obtain rfl := Option.some.inj (hrecorded.symm.trans hlease')
    exact hother howner.symm
  | release name other =>
    exact (serve_release h now name other).foreign lease hrecorded fun howner => hother howner.symm

/-- Only an open service answers with `true`. -/
theorem isOpen_of_serve {r : Request} (h : (b.serve now r).1 = .ok true) : b.IsOpen := by
  cases b with
  | memory leases => trivial
  | database table =>
    by_contra hclosed
    have hshut : ¬table.isOpen = true := hclosed
    simp [serve, Database.service, if_neg hshut] at h

/-- A release records nothing new. -/
theorem lookup_of_release (h : b.Sound) {name : String} {lease : Lease}
    (hrecorded : (b.serve now (.release name owner)).2.lookup key = some lease) :
    b.lookup key = some lease := by
  cases b with
  | memory leases =>
    simp only [serve, Leases.service, Leases.answer] at hrecorded
    cases hlease : leases[name]? with
    | none => simpa only [hlease] using hrecorded
    | some held =>
      simp only [hlease] at hrecorded
      split at hrecorded
      -- a release only takes away
      · rw [lookup_erase] at hrecorded
        split at hrecorded
        · cases hrecorded
        · exact hrecorded
      · exact hrecorded
  | database table =>
    simp only [serve, Database.service] at hrecorded
    by_cases hopen : table.isOpen = true
    · simp only [if_pos hopen, Rows.answer, lookup] at hrecorded
      obtain ⟨row, hrow, rfl⟩ := Option.map_eq_some_iff.1 hrecorded
      rw [Rows.find_filter h, Option.filter_eq_some_iff] at hrow
      rw [lookup, hrow.1]
      rfl
    · simpa only [if_neg hopen] using hrecorded

/-- An owner with a lease after a request had one before, or has just acquired it. -/
theorem owner_serve (h : b.Sound) {r : Request} {lease : Lease}
    (hrecorded : (b.serve now r).2.lookup key = some lease) :
    (∃ before, b.lookup key = some before ∧ before.owner = lease.owner) ∨
      ∃ lifetime, r = .acquire key lease.owner lifetime := by
  -- only a request for the lock brings a new owner
  cases r with
  | acquire name owner lifetime =>
    have hacquired := serve_acquire h now lifetime name owner
    by_cases hname : key = name
    · subst hname
      by_cases hreply : (b.serve now (.acquire key owner lifetime)).1 = .ok true
      · obtain rfl := Option.some.inj ((hacquired.granted hreply).symm.trans hrecorded)
        exact .inr ⟨lifetime, rfl⟩
      · exact .inl ⟨lease, (hacquired.refused hreply).symm.trans hrecorded, rfl⟩
    · exact .inl ⟨lease, (hacquired.other key hname).symm.trans hrecorded, rfl⟩
  | heartbeat name owner lifetime =>
    have hextended := serve_heartbeat h now lifetime name owner
    by_cases hname : key = name
    · subst hname
      by_cases hreply : (b.serve now (.heartbeat key owner lifetime)).1 = .ok true
      · obtain ⟨before, hbefore, howner, -⟩ :=
          (hextended.answer (isOpen_of_serve hreply)).1 hreply
        obtain rfl := Option.some.inj ((hextended.extended hreply).symm.trans hrecorded)
        exact .inl ⟨before, hbefore, howner⟩
      · exact .inl ⟨lease, (hextended.refused hreply).symm.trans hrecorded, rfl⟩
    · exact .inl ⟨lease, (hextended.other key hname).symm.trans hrecorded, rfl⟩
  | release name owner => exact .inl ⟨lease, lookup_of_release h hrecorded, rfl⟩

/-- After a release that is carried out the owner has no lease. -/
theorem owner_ne_of_release (h : b.Sound) (hreply : (b.serve now (.release key owner)).1 = .ok true)
    {lease : Lease} (hrecorded : (b.serve now (.release key owner)).2.lookup key = some lease) :
    lease.owner ≠ owner := by
  intro howner
  have hnone := (serve_release h now key owner).own (isOpen_of_serve hreply) lease
    (lookup_of_release h hrecorded) howner
  cases hnone.symm.trans hrecorded

end Backing

/-! ## Behind faults -/

namespace Faulty

variable {f : Faulty} {now lifetime : Nat} {key owner : String}

/-- Taking the next fault from its list leaves the leases alone. -/
theorem backing_nextFault (f : Faulty) (op : Operation) :
    (f.nextFault op).2.backing = f.backing := by
  cases op <;> rfl

/-- A request is carried out, or it is answered by a fault and changes nothing. -/
theorem serve_cases (now : Nat) (r : Request) (f : Faulty) :
    ((f.serve now r).1 = (f.backing.serve now r).1 ∧
        (f.serve now r).2.backing = (f.backing.serve now r).2) ∨
      ((f.serve now r).1 ≠ .ok true ∧ (f.serve now r).2.backing = f.backing) := by
  have hbacking := f.backing_nextFault r.operation
  rcases hnext : f.nextFault r.operation with ⟨fault, g⟩
  rw [hnext] at hbacking
  rw [serve, hnext, ← hbacking]
  cases fault with
  | pass => exact .inl ⟨rfl, rfl⟩
  | refuse => exact .inr ⟨by simp, rfl⟩
  | fail e => exact .inr ⟨by simp, rfl⟩

/-- Where a script of faults is empty, requests of its kind are carried out. -/
theorem serve_of_pass (now : Nat) {r : Request} (h : (f.nextFault r.operation).1 = .pass) :
    (f.serve now r).1 = (f.backing.serve now r).1 ∧
      (f.serve now r).2.backing = (f.backing.serve now r).2 := by
  have hbacking := f.backing_nextFault r.operation
  rcases hnext : f.nextFault r.operation with ⟨fault, g⟩
  rw [hnext] at hbacking h
  obtain rfl : fault = .pass := h
  rw [serve, hnext, ← hbacking]
  exact ⟨rfl, rfl⟩

/-- An empty script of faults for heartbeats stays empty. -/
theorem onHeartbeat_serve (h : f.onHeartbeat = []) (now : Nat) (r : Request) :
    (f.serve now r).2.onHeartbeat = [] := by
  have hempty : (f.nextFault r.operation).2.onHeartbeat = [] := by
    cases r <;> simp [nextFault, Request.operation, h]
  rcases hnext : f.nextFault r.operation with ⟨fault, g⟩
  rw [hnext] at hempty
  rw [serve, hnext]
  cases fault <;> exact hempty

/-- An empty script of faults for releases stays empty. -/
theorem onRelease_serve (h : f.onRelease = []) (now : Nat) (r : Request) :
    (f.serve now r).2.onRelease = [] := by
  have hempty : (f.nextFault r.operation).2.onRelease = [] := by
    cases r <;> simp [nextFault, Request.operation, h]
  rcases hnext : f.nextFault r.operation with ⟨fault, g⟩
  rw [hnext] at hempty
  rw [serve, hnext]
  cases fault <;> exact hempty

/-- A fault only keeps an acquisition from being granted. -/
theorem serve_acquire (h : f.backing.Sound) (now lifetime : Nat) (key owner : String) :
    Backing.Acquired now lifetime key owner f.backing
      (f.serve now (.acquire key owner lifetime)).1
      (f.serve now (.acquire key owner lifetime)).2.backing := by
  rcases serve_cases now (.acquire key owner lifetime) f with
    ⟨hreply, hbacking⟩ | ⟨hreply, hbacking⟩
  · rw [hreply, hbacking]
    exact Backing.serve_acquire h now lifetime key owner
  · rw [hbacking]
    exact Backing.acquired_self h hreply

/-- A fault only keeps a heartbeat from extending a lock. -/
theorem serve_heartbeat_renewed (h : f.backing.Sound) (now lifetime : Nat) (key owner : String) :
    Backing.Renewed now lifetime key owner f.backing
      (f.serve now (.heartbeat key owner lifetime)).1
      (f.serve now (.heartbeat key owner lifetime)).2.backing := by
  rcases serve_cases now (.heartbeat key owner lifetime) f with
    ⟨hreply, hbacking⟩ | ⟨hreply, hbacking⟩
  · rw [hreply, hbacking]
    exact (Backing.serve_heartbeat h now lifetime key owner).toRenewed
  · rw [hbacking]
    exact Backing.renewed_self h hreply

/-- Without faults for heartbeats they are carried out. -/
theorem serve_heartbeat (h : f.backing.Sound) (hbeats : f.onHeartbeat = [])
    (now lifetime : Nat) (key owner : String) :
    Backing.Extended now lifetime key owner f.backing
      (f.serve now (.heartbeat key owner lifetime)).1
      (f.serve now (.heartbeat key owner lifetime)).2.backing := by
  have hpass : (f.nextFault (Request.heartbeat key owner lifetime).operation).1 = .pass := by
    simp [nextFault, Request.operation, hbeats]
  obtain ⟨hreply, hbacking⟩ := serve_of_pass now hpass
  rw [hreply, hbacking]
  exact Backing.serve_heartbeat h now lifetime key owner

/-- A fault only keeps a release from being carried out. -/
theorem serve_release_spared (h : f.backing.Sound) (now : Nat) (key owner : String) :
    Backing.Spared key owner f.backing (f.serve now (.release key owner)).2.backing := by
  rcases serve_cases now (.release key owner) f with ⟨-, hbacking⟩ | ⟨-, hbacking⟩
  · rw [hbacking]
    exact (Backing.serve_release h now key owner).toSpared
  · rw [hbacking]
    exact .refl h key owner

/-- Without faults for releases they are carried out. -/
theorem serve_release (h : f.backing.Sound) (hreleases : f.onRelease = []) (now : Nat)
    (key owner : String) :
    Backing.Released key owner f.backing (f.serve now (.release key owner)).2.backing := by
  have hpass : (f.nextFault (Request.release key owner).operation).1 = .pass := by
    simp [nextFault, Request.operation, hreleases]
  rw [(serve_of_pass now hpass).2]
  exact Backing.serve_release h now key owner

theorem alike_serve (h : f.backing.Sound) (now : Nat) (r : Request) :
    Backing.Alike f.backing (f.serve now r).2.backing := by
  rcases serve_cases now r f with ⟨-, hbacking⟩ | ⟨-, hbacking⟩
  · rw [hbacking]
    exact Backing.alike_serve h now r
  · rw [hbacking]
    exact .refl h

theorem lookup_serve_of_ne (h : f.backing.Sound) (now : Nat) {r : Request} (hkey : key ≠ r.key) :
    (f.serve now r).2.backing.lookup key = f.backing.lookup key := by
  rcases serve_cases now r f with ⟨-, hbacking⟩ | ⟨-, hbacking⟩
  · rw [hbacking]
    exact Backing.lookup_serve_of_ne h now hkey
  · rw [hbacking]

theorem lookup_serve_of_foreign (h : f.backing.Sound) (hopen : f.backing.IsOpen) {lease : Lease}
    (hrecorded : f.backing.lookup key = some lease) (hforce : now < lease.expires) {r : Request}
    (hforeign : r.key = key → r.owner ≠ lease.owner) :
    (f.serve now r).2.backing.lookup key = some lease := by
  rcases serve_cases now r f with ⟨-, hbacking⟩ | ⟨-, hbacking⟩
  · rw [hbacking]
    exact Backing.lookup_serve_of_foreign h hopen hrecorded hforce hforeign
  · rw [hbacking, hrecorded]

theorem owner_serve (h : f.backing.Sound) {r : Request} {lease : Lease}
    (hrecorded : (f.serve now r).2.backing.lookup key = some lease) :
    (∃ before, f.backing.lookup key = some before ∧ before.owner = lease.owner) ∨
      ∃ lifetime, r = .acquire key lease.owner lifetime := by
  rcases serve_cases now r f with ⟨-, hbacking⟩ | ⟨-, hbacking⟩
  · rw [hbacking] at hrecorded
    exact Backing.owner_serve h hrecorded
  · rw [hbacking] at hrecorded
    exact .inl ⟨lease, hrecorded, rfl⟩

theorem owner_ne_of_release (h : f.backing.Sound)
    (hreply : (f.serve now (.release key owner)).1 = .ok true) {lease : Lease}
    (hrecorded : (f.serve now (.release key owner)).2.backing.lookup key = some lease) :
    lease.owner ≠ owner := by
  rcases serve_cases now (.release key owner) f with ⟨hsame, hbacking⟩ | ⟨hfault, -⟩
  · rw [hsame] at hreply
    rw [hbacking] at hrecorded
    exact Backing.owner_ne_of_release h hreply hrecorded
  · exact absurd hreply hfault

end Faulty

end Lock

end EntityCache
