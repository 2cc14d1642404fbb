import EntityCache.Proofs.Store.Failures

/-!
# Requests and the keys that they name

A request names keys.  Whether it is carried out or fails, it leaves the string and the set of every
other key as they are, and so does a program of such requests (`Attends.sameAt_run`).  A request
that only reads is answered from what stands at the keys that it names: a program of reads has the
same result on two stores that hold the same there (`Observed.run_eq_of_lookAlike`).

Both are said of stores of either kind, a database that has been closed included.
-/

namespace EntityCache

namespace Store

/-! ## One request -/

namespace Request

/-- The keys that a request names. -/
def keys : Request → List String
  | get key | set key _ | sadd key _ | srem key _ | smembers key => [key]
  | mget keys | del keys => keys
  | mset entries => entries.map (·.1)

/-- A request that changes nothing. -/
def Reads : Request → Prop
  | get _ | mget _ | smembers _ => True
  | _ => False

end Request

namespace Content

variable {c c' : Content} {r : Request} {k : String}

/-- The string and the set of a key are the same. -/
structure SameAt (k : String) (c c' : Content) : Prop where
  string : c.strings k = c'.strings k
  set : c.sets k = c'.sets k

theorem SameAt.refl (k : String) (c : Content) : SameAt k c c := ⟨rfl, rfl⟩

theorem SameAt.trans {c'' : Content} (h : SameAt k c c') (h' : SameAt k c' c'') : SameAt k c c'' :=
  ⟨h.string.trans h'.string, h.set.trans h'.set⟩

/-- A request leaves the keys alone that it does not name. -/
theorem sameAt_answer (h : k ∉ r.keys) (c : Content) : SameAt k (c.answer r).2 c := by
  cases r with
  | get _ | mget _ | smembers _ => exact .refl k c
  | set key value => exact ⟨Function.update_of_ne (List.ne_of_not_mem_cons h) _ _, rfl⟩
  | mset entries => exact ⟨strings_put_of_notMem h, rfl⟩
  | del keys => exact ⟨if_neg h, if_neg h⟩
  | sadd key members | srem key members =>
    exact ⟨rfl, Function.update_of_ne (List.ne_of_not_mem_cons h) _ _⟩

/-- A read changes nothing. -/
theorem answer_of_reads (h : r.Reads) (c : Content) : (c.answer r).2 = c := by
  cases r with
  | get _ | mget _ | smembers _ => rfl
  | set _ _ | mset _ | del _ | sadd _ _ | srem _ _ => exact h.elim

/-- A read is answered from what stands at the keys that it names. -/
theorem answer_eq_of_sameAt (h : r.Reads) (hsame : ∀ k ∈ r.keys, SameAt k c c') :
    (c.answer r).1 = (c'.answer r).1 := by
  cases r with
  | get key => exact (hsame key List.mem_cons_self).string
  | mget keys => exact List.map_congr_left fun k hk => (hsame k hk).string
  | smembers key =>
    exact congrArg Std.ExtTreeSet.toList (hsame key List.mem_cons_self).set
  | set _ _ | mset _ | del _ | sadd _ _ | srem _ _ => exact h.elim

end Content

/-! ## Programs leave other keys alone -/

section Services

variable {σ α : Type} {faulty : Prop} {serve : (r : Request) → σ → r.Reply × σ}
  {content : σ → Content} {ready : σ → Prop} {p : Calls α} {s : σ}

/-- A store stays ready over a whole program. -/
theorem Attends.ready_run (hattends : Attends faulty serve content ready) (p : Calls α)
    (hs : ready s) : ready (p.run serve s).2 := by
  induction p generalizing s with
  | done x => exact hs
  | ask r next ih => exact ih _ (hattends.ready r s hs)

/-- A program leaves a key alone that none of its requests names. -/
theorem Attends.sameAt_run (hattends : Attends faulty serve content ready) {k : String}
    (hp : p.Asks fun r => k ∉ r.keys) (hs : ready s) :
    Content.SameAt k (content (p.run serve s).2) (content s) := by
  induction p generalizing s with
  | done x => exact .refl k (content s)
  | ask r next ih =>
    refine (ih _ (hp.2 _) (hattends.ready r s hs)).trans ?_
    have houtcome := hattends.outcome r s hs
    generalize (serve r s).1 = reply, content (serve r s).2 = after at houtcome
    cases houtcome with
    | failed => exact .refl k (content s)
    | answered => exact Content.sameAt_answer hp.1 (content s)

end Services

/-! ## Stores that are open or closed -/

namespace Backing

variable {b : Backing} {r : Request}

/-- A store in memory, or a database with tables that hold no row twice. -/
def Sound : Backing → Prop
  | memory _ => True
  | database d => d.tables.Sound

/-- A store that attends to requests; a store in memory always does. -/
def isOpen : Backing → Bool
  | memory _ => true
  | database d => d.isOpen

/-- No request closes a store. -/
theorem isOpen_serve (r : Request) (b : Backing) : (b.serve r).2.isOpen = b.isOpen := by
  cases b with
  | memory m => rfl
  | database d =>
    show (d.serve r).2.isOpen = d.isOpen
    rw [Database.serve]
    split <;> rfl

/-- Every request to a store is carried out, unless the store is closed and the request fails. -/
theorem attends_sound : Attends True Backing.serve Backing.content Backing.Sound where
  outcome r b h := by
    cases b with
    | memory m => exact (Backing.attends.outcome r (.memory m) trivial).mayFail
    | database d =>
      obtain ⟨hanswer, hcontent, -⟩ := Database.answer_eq h r
      show Content.Outcome True r d.tables.content (d.serve r).1 (d.serve r).2.tables.content
      rw [Database.serve]
      split
      · show Content.Outcome True r _ (.ok _) (Database.answer r d.tables).2.content
        rw [hcontent]
        exact .answered _ fun _ => hanswer
      · exact .failed trivial _
  ready r b h := by
    cases b with
    | memory m => trivial
    | database d =>
      show (d.serve r).2.tables.Sound
      rw [Database.serve]
      split
      · exact (Database.answer_eq h r).2.2
      · exact h

/-- A read changes nothing. -/
theorem content_serve_of_reads (h : b.Sound) (hr : r.Reads) :
    (b.serve r).2.content = b.content := by
  have houtcome := attends_sound.outcome r b h
  generalize (b.serve r).1 = reply, (b.serve r).2.content = after at houtcome ⊢
  cases houtcome with
  | failed => rfl
  | answered => exact Content.answer_of_reads hr b.content

/-- What a read is answered depends on the content of the store, and on whether it is open. -/
theorem serve_of_reads (h : b.Sound) (hr : r.Reads) :
    (b.serve r).1 =
      if b.isOpen || (Database.plan r).isEmpty then .ok (b.content.answer r).1
      else .error (.query StoreError.poolClosed) := by
  cases b with
  | memory m =>
    have hanswer : (m.answer r).1 = (m.content.answer r).1 := by
      apply Memory.answer_eq
      rintro keys rfl
      exact hr.elim
    exact congrArg Except.ok hanswer
  | database d =>
    have hanswer := (Database.answer_eq h r).1
    show (d.serve r).1 = if d.isOpen || (Database.plan r).isEmpty then
      .ok (d.tables.content.answer r).1 else _
    rw [Database.serve, ← hanswer]
    split <;> rfl

/-- Two stores that hold the same at the keys of a set, and are both open or both closed. -/
structure LookAlike (K : Set String) (b b' : Backing) : Prop where
  sound : b.Sound
  sound' : b'.Sound
  isOpen : b.isOpen = b'.isOpen
  same : ∀ k ∈ K, Content.SameAt k b.content b'.content

variable {K : Set String} {b' : Backing}

/-- A read of these keys is answered alike, and leaves the stores alike. -/
theorem LookAlike.serve (h : LookAlike K b b') (hr : r.Reads) (hkeys : ∀ k ∈ r.keys, k ∈ K) :
    (b.serve r).1 = (b'.serve r).1 ∧ LookAlike K (b.serve r).2 (b'.serve r).2 := by
  constructor
  · rw [serve_of_reads h.sound hr, serve_of_reads h.sound' hr, h.isOpen,
      Content.answer_eq_of_sameAt hr fun k hk => h.same k (hkeys k hk)]
  · refine ⟨attends_sound.ready r b h.sound, attends_sound.ready r b' h.sound', ?_, ?_⟩
    · rw [isOpen_serve, isOpen_serve, h.isOpen]
    · rw [content_serve_of_reads h.sound hr, content_serve_of_reads h.sound' hr]
      exact h.same

/-- A fresh store is sound. -/
theorem Fresh.sound (h : b.Fresh) : b.Sound := by
  rcases h with rfl | rfl
  · trivial
  · exact Tables.sound_empty

end Backing

namespace Observed

/-- Faults make requests fail, and no more than that. -/
theorem attends_sound :
    Attends True Observed.serve (fun o => o.backing.content) fun o => o.backing.Sound :=
  attends_of Backing.attends_sound

/-- A program does not open or close the store. -/
theorem isOpen_run {α : Type} (p : Calls α) (o : Observed) :
    (p.run serve o).2.backing.isOpen = o.backing.isOpen := by
  induction p generalizing o with
  | done x => rfl
  | ask r next ih =>
    refine (ih (serve r o).1 (serve r o).2).trans ?_
    rw [serve]
    rcases Fault.choose r.operation o.faults with ⟨_ | ⟨e | n | n⟩, faults⟩
    case some.fail => rfl
    all_goals exact Backing.isOpen_serve r o.backing

/-- A program of reads has the same result on two stores that look alike at the keys that it names,
with the same faults ahead. -/
theorem run_eq_of_lookAlike {α : Type} {K : Set String} {p : Calls α}
    (hp : p.Asks fun r => r.Reads ∧ ∀ k ∈ r.keys, k ∈ K) {b b' : Backing}
    (h : Backing.LookAlike K b b') (calls calls' : List Request) (faults : List Fault) :
    (p.run serve ⟨b, calls, faults⟩).1 = (p.run serve ⟨b', calls', faults⟩).1 := by
  induction p generalizing b b' calls calls' faults with
  | done x => rfl
  | ask r next ih =>
    obtain ⟨hreply, halike⟩ := h.serve hp.1.1 hp.1.2
    rw [Program.run, Program.run, serve, serve]
    rcases Fault.choose r.operation faults with ⟨_ | ⟨e | n | n⟩, faults⟩
    case some.fail => exact ih _ (hp.2 _) h _ _ faults
    all_goals
      simp only [hreply]
      exact ih _ (hp.2 _) halike _ _ faults

end Observed

end Store

end EntityCache
