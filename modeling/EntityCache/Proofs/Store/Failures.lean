import EntityCache.Proofs.Settled
import EntityCache.Proofs.Store.Programs

/-!
# Requests that are carried out or fail

A store that lets requests fail still keeps to one rule, `Content.Outcome`: a request is carried out
on what the store holds, or it fails and leaves that alone.  `Attends` says so of every request to a
service; a store of either kind attends to requests without failing any, and a store under
observation with any faults attends to them and may fail some (`Backing.attends`,
`Observed.attends`).

Every request keeps or fixes each string, and each member of a set.  So requests that are made again
in the same order change nothing, and it does no harm to have carried out the first of them before
(`carryOut_carryOut_take`).  Requests that are `Independent` of each other may besides be made in
any order.
-/

namespace EntityCache

namespace Store

/-- A request whose answer can be relied on: neither the number of removed keys, which depends on
how a store keeps empty sets, nor a multi-key read, which may get the wrong number of slots. -/
def Request.Exact : Request → Prop
  | .del _ | .mget _ => False
  | _ => True

namespace Content

variable {c : Content} {r : Request} {k : String}

/-! ## Making requests again -/

/-- What a store holds after requests have been carried out, one after another. -/
def carryOut (rs : List Request) (c : Content) : Content := rs.foldl (fun c r => (c.answer r).2) c

@[simp] theorem carryOut_nil : carryOut [] c = c := rfl

@[simp] theorem carryOut_cons {rs : List Request} :
    carryOut (r :: rs) c = carryOut rs (c.answer r).2 := rfl

theorem carryOut_append {rs rs' : List Request} :
    carryOut (rs ++ rs') c = carryOut rs' (carryOut rs c) :=
  List.foldl_append

/-- Entries are put one after another. -/
theorem put_cons (e : String × String) (rest : List (String × String)) (c : Content) :
    c.put (e :: rest) = (c.put [e]).put rest := rfl

/-- A key without an entry keeps its string. -/
theorem strings_put_of_notMem {entries : List (String × String)} (h : k ∉ entries.map (·.1)) :
    (c.put entries).strings k = c.strings k := by
  induction entries generalizing c with
  | nil => rfl
  | cons e rest ih =>
    rw [List.map_cons, List.mem_cons, not_or] at h
    rw [put_cons, ih h.2]
    exact Function.update_of_ne h.1 _ _

/-- The string of a key with an entry does not depend on what was there before. -/
theorem strings_put_congr {entries : List (String × String)} (c c' : Content)
    (h : k ∈ entries.map (·.1)) : (c.put entries).strings k = (c'.put entries).strings k := by
  induction entries generalizing c c' with
  | nil => simp at h
  | cons e rest ih =>
    rw [put_cons, put_cons e rest c']
    by_cases hrest : k ∈ rest.map (·.1)
    · exact ih _ _ hrest
    · obtain rfl : k = e.1 := (List.mem_cons.1 h).resolve_right hrest
      rw [strings_put_of_notMem hrest, strings_put_of_notMem hrest]
      simp [put]

/-- A string that is there after entries have been put is one of theirs, or was there before. -/
theorem mem_or_of_strings_put {entries : List (String × String)} {text : String}
    (h : (c.put entries).strings k = some text) :
    (k, text) ∈ entries ∨ c.strings k = some text := by
  induction entries generalizing c with
  | nil => exact .inr h
  | cons e rest ih =>
    rw [put_cons] at h
    rcases ih h with hmem | hbefore
    · exact .inl (List.mem_cons_of_mem _ hmem)
    · by_cases hk : k = e.1
      · subst hk
        simp only [put, List.foldl_cons, List.foldl_nil, Function.update_self,
          Option.some.injEq] at hbefore
        subst hbefore
        exact .inl List.mem_cons_self
      · simp only [put, List.foldl_cons, List.foldl_nil, Function.update_of_ne hk] at hbefore
        exact .inr hbefore

/-- A request keeps the string of a key, or fixes it. -/
theorem settles_strings (r : Request) (k : String) :
    Settles (fun c : Content => c.strings k) fun c => (c.answer r).2 := by
  have hput (entries : List (String × String)) :
      Settles (fun c : Content => c.strings k) (put entries) := by
    by_cases hk : k ∈ entries.map (·.1)
    · exact .fixes _ fun c => strings_put_congr c .empty hk
    · exact .keeps fun c => strings_put_of_notMem hk
  cases r with
  | get _ | mget _ | smembers _ | sadd _ _ | srem _ _ => exact .keeps fun _ => rfl
  | set key value => exact hput [(key, value)]
  | mset entries => exact hput entries
  | del keys =>
    by_cases hk : k ∈ keys
    · exact .fixes none fun c => if_pos hk
    · exact .keeps fun c => if_neg hk

/-- A request keeps a member in or out of a set, or fixes whether it is one. -/
theorem settles_mem (r : Request) (k x : String) :
    Settles (fun c : Content => x ∈ c.sets k) fun c => (c.answer r).2 := by
  -- a request makes something a member, makes it none, or leaves it as it is
  cases r with
  | get _ | set _ _ | mget _ | mset _ | smembers _ => exact .keeps fun _ => rfl
  | del keys =>
    by_cases hk : k ∈ keys
    · exact .fixes False fun c => by simp [answer, remove, hk]
    · exact .keeps fun c => by simp [answer, remove, hk]
  | sadd key members =>
    by_cases hx : k = key ∧ x ∈ members
    · obtain ⟨rfl, hx⟩ := hx
      exact .fixes True fun c => by simp [answer, add, change, hx]
    · refine .keeps fun c => ?_
      by_cases hk : k = key
      · subst hk
        simp [answer, add, change, not_and.1 hx rfl]
      · simp [answer, add, change, hk]
  | srem key members =>
    by_cases hx : k = key ∧ x ∈ members
    · obtain ⟨rfl, hx⟩ := hx
      exact .fixes False fun c => by simp [answer, takeOut, change, hx]
    · refine .keeps fun c => ?_
      by_cases hk : k = key
      · subst hk
        simp [answer, takeOut, change, not_and.1 hx rfl]
      · simp [answer, takeOut, change, hk]

/-- Requests that are all made once more change nothing. -/
theorem carryOut_carryOut (rs : List Request) (c : Content) :
    carryOut rs (carryOut rs c) = carryOut rs c := by
  apply Content.ext
  · funext k
    exact (Settles.foldl fun r _ => settles_strings r k).again c
  · funext k
    apply Std.ExtTreeSet.ext_mem
    intro x
    exact iff_of_eq ((Settles.foldl fun r _ => settles_mem r k x).again c)

/-- Requests leave the same behind whether or not the first ones have been carried out before. -/
theorem carryOut_carryOut_take (rs : List Request) (n : Nat) (c : Content) :
    carryOut rs (carryOut (rs.take n) c) = carryOut rs c := by
  have hsplit (c : Content) : carryOut rs c = carryOut (rs.drop n) (carryOut (rs.take n) c) := by
    rw [← carryOut_append, List.take_append_drop]
  rw [hsplit, hsplit c, carryOut_carryOut]

/-- Two requests leave the same behind in either order. -/
def Independent (r r' : Request) : Prop :=
  ∀ c : Content, ((c.answer r).2.answer r').2 = ((c.answer r').2.answer r).2

theorem Independent.symm {r' : Request} (h : Independent r r') : Independent r' r :=
  fun c => (h c).symm

/-- An addition to a set and new values touch different parts of a store. -/
theorem independent_sadd_mset (key : String) (members : List String)
    (entries : List (String × String)) : Independent (.sadd key members) (.mset entries) :=
  fun _ => rfl

/-- Additions can be made in any order, also to the same set. -/
theorem independent_sadd_sadd (key key' : String) (members members' : List String) :
    Independent (.sadd key members) (.sadd key' members') := by
  intro c
  refine Content.ext rfl (funext fun k => Std.ExtTreeSet.ext_mem fun x => ?_)
  simp only [answer, add, change]
  by_cases hkeys : key = key'
  · subst hkeys
    by_cases hk : k = key
    · subst hk
      simp [or_comm, or_left_comm]
    · simp [hk]
  · rw [Function.update_of_ne (Ne.symm hkeys), Function.update_of_ne hkeys,
      Function.update_comm hkeys]

/-- A request may be moved behind others that it is independent of. -/
theorem carryOut_answer {rs : List Request} (h : ∀ r' ∈ rs, Independent r r') (c : Content) :
    carryOut rs (c.answer r).2 = ((carryOut rs c).answer r).2 := by
  induction rs generalizing c with
  | nil => rfl
  | cons r' rest ih =>
    rw [carryOut_cons, carryOut_cons, h r' List.mem_cons_self c,
      ih fun other hother => h other (List.mem_cons_of_mem _ hother)]

/-- What each of the requests preserves holds after all of them. -/
theorem carryOut_induction {P : Content → Prop} (rs : List Request) (hc : P c)
    (h : ∀ r ∈ rs, ∀ c, P c → P (c.answer r).2) : P (carryOut rs c) := by
  induction rs generalizing c with
  | nil => exact hc
  | cons r rest ih =>
    exact ih (h r List.mem_cons_self c hc) fun r' hr' => h r' (List.mem_cons_of_mem _ hr')

/-! ## What one request does -/

/-- A request to a store has been carried out, or has failed and changed nothing, which only a
faulty store does. -/
inductive Outcome (faulty : Prop) (r : Request) (c : Content) : r.Reply → Content → Prop
  | failed (h : faulty) (e : StoreError) : Outcome faulty r c (.error e) c
  | answered (a : r.Answer) (h : r.Exact → a = (c.answer r).1) :
    Outcome faulty r c (.ok a) (c.answer r).2

variable {faulty : Prop} {reply : r.Reply} {c' : Content}

/-- A store that fails no request, or only sometimes, is taken for one that may fail any. -/
theorem Outcome.mayFail (h : Outcome faulty r c reply c') : Outcome True r c reply c' := by
  cases h with
  | failed h e => exact .failed trivial e
  | answered a h => exact .answered a h

/-- Exact answers are what a store answers, so only others may be changed on the way. -/
theorem Outcome.map {f : r.Answer → r.Answer} (h : Outcome faulty r c reply c')
    (hf : r.Exact → ∀ a, f a = a) : Outcome faulty r c (reply.map f) c' := by
  cases h with
  | failed h e => exact .failed h e
  | answered a h => exact .answered (f a) fun hexact => (hf hexact a).trans (h hexact)

end Content

section Services

variable {σ : Type} {faulty : Prop} {serve : (r : Request) → σ → r.Reply × σ}
  {content : σ → Content} {ready : σ → Prop}

/-- A service with stores that hold something: a ready store attends to every request and stays
ready. -/
structure Attends (faulty : Prop) (serve : (r : Request) → σ → r.Reply × σ)
    (content : σ → Content) (ready : σ → Prop) : Prop where
  outcome : ∀ r s, ready s →
    Content.Outcome faulty r (content s) (serve r s).1 (content (serve r s).2)
  ready : ∀ r s, ready s → ready (serve r s).2

end Services

/-! ## Programs that carry requests out -/

/-- A program that makes these requests in order, whatever it is answered, and stops when one of
them fails.  It may leave out a request that changes nothing. -/
inductive CarriesOut {ε : Type} : List Request → Calls (Except ε Unit) → Prop
  | done : CarriesOut [] (.done (.ok ()))
  | skip {r : Request} {rest : List Request} {p : Calls (Except ε Unit)}
    (hr : ∀ held : Content, (held.answer r).2 = held) (h : CarriesOut rest p) :
    CarriesOut (r :: rest) p
  | ask {r : Request} {rest : List Request} {next : r.Reply → Calls (Except ε Unit)}
    (h : ∀ a, CarriesOut rest (next (.ok a)))
    (hstop : ∀ e, ∃ e', next (.error e) = .done (.error e')) : CarriesOut (r :: rest) (.ask r next)

/-! ## Stores of either kind -/

/-- A store in memory, or an open database with tables that hold no row twice. -/
def Backing.Ready : Backing → Prop
  | .memory _ => True
  | .database d => d.isOpen = true ∧ d.tables.Sound

/-- A store that cannot be told from one in memory attends to requests. -/
theorem Backing.Twin.ready {b : Backing} {m : Memory} (h : b.Twin m) : b.Ready := by
  cases h with
  | memory m => trivial
  | database alike => exact ⟨alike.isOpen, alike.sound⟩

/-- A store of either kind carries every request out. -/
theorem Backing.attends : Attends False Backing.serve Backing.content Backing.Ready where
  outcome r b h := by
    cases b with
    | memory m =>
      show Content.Outcome False r m.content (.ok (m.answer r).1) (m.answer r).2.content
      rw [Memory.content_answer]
      -- the number of removed keys may differ in memory, but no exact request removes keys
      refine .answered _ fun hexact => Memory.answer_eq ?_
      rintro keys rfl
      exact hexact.elim
    | database d =>
      obtain ⟨tables, isOpen⟩ := d
      obtain ⟨rfl, hsound⟩ := h
      obtain ⟨t', -, hcontent, hserve⟩ := Database.serve_eq hsound r
      show Content.Outcome False r tables.content (Database.serve r { tables }).1
        (Database.serve r { tables }).2.tables.content
      rw [hserve]
      show Content.Outcome False r tables.content (.ok _) t'.content
      rw [hcontent]
      exact .answered _ fun _ => rfl
  ready r b h := by
    cases b with
    | memory m => trivial
    | database d =>
      obtain ⟨tables, isOpen⟩ := d
      obtain ⟨rfl, hsound⟩ := h
      obtain ⟨t', hsound', -, hserve⟩ := Database.serve_eq hsound r
      show Backing.Ready (.database (Database.serve r { tables }).2)
      rw [hserve]
      exact ⟨rfl, hsound'⟩

/-- A fault that does not make a request fail leaves an exact answer as it is. -/
theorem FaultEffect.distort_eq (effect : FaultEffect) {r : Request} (h : r.Exact) (a : r.Answer) :
    effect.distort r a = a := by
  cases r with
  | del _ | mget _ => exact h.elim
  | _ => cases effect <;> rfl

namespace Observed

/-- A store under observation attends to requests if the store behind does, or a fault makes the
request fail. -/
theorem attends_of {faulty : Prop} {ready : Backing → Prop}
    (h : Attends faulty Backing.serve Backing.content ready) :
    Attends True Observed.serve (fun o => o.backing.content) fun o => ready o.backing where
  outcome r o ho := by
    have hbacking := h.outcome r o.backing ho
    rw [serve]
    match Fault.choose r.operation o.faults with
    | (some (.fail e), _) => exact .failed trivial e
    | (none, _) => exact hbacking.mayFail
    | (some (.short n), _) | (some (.extra n), _) =>
      exact hbacking.mayFail.map fun hexact => FaultEffect.distort_eq _ hexact
  ready r o ho := by
    have hbacking := h.ready r o.backing ho
    rw [serve]
    match Fault.choose r.operation o.faults with
    | (some (.fail e), _) => exact ho
    | (none, _) | (some (.short _), _) | (some (.extra _), _) => exact hbacking

/-- A store of either kind attends to requests under observation too. -/
theorem attends :
    Attends True Observed.serve (fun o => o.backing.content) fun o => o.backing.Ready :=
  attends_of Backing.attends

/-- Without faults a program has the result that it has on the store behind. -/
theorem run_of_noFaults {α : Type} (p : Calls α) (b : Backing) (calls : List Request) :
    ∃ calls', p.run serve ⟨b, calls, []⟩ =
      ((p.run Backing.serve b).1, ⟨(p.run Backing.serve b).2, calls', []⟩) := by
  induction p generalizing b calls with
  | done x => exact ⟨calls, rfl⟩
  | ask r next ih => exact ih (b.serve r).1 (b.serve r).2 (r :: calls)

end Observed

end Store

end EntityCache
