import EntityCache.Proofs.Exchanges
import EntityCache.Proofs.Store.Interleaving

/-!
# The record of programs side by side

`Program.record` lists the exchanges of programs that take turns, in order, each with the place of
the program that has asked.  The part of one place is what this program exchanges (`takes_record`),
and every reply is the one of the service in the state that the exchanges before have led to
(`reply_of_record`).

What a store holds at the end can be told from the requests on the record: something that requests
turn on and off holds if it has been turned on and not off again since (`carryOut_iff`).
-/

namespace EntityCache

namespace Program

section Record

variable {Req : Type} {Reply : Req → Type} {α β σ : Type} (serve : (r : Req) → σ → Reply r × σ)

/-- What the program in a place exchanges when it takes a turn. -/
def exchange? (i : Nat) (ps : List (Program Req Reply α)) (s : σ) : Option (Exchange Reply) :=
  match ps[i]? with
  | some (ask r _) => some ⟨r, (serve r s).1⟩
  | _ => none

/-- The exchanges of programs that take turns, in order, each with the place of its program. -/
def record : List Nat → List (Program Req Reply α) → σ → List (Nat × Exchange Reply)
  | [], _, _ => []
  | i :: turns, ps, s =>
    ((exchange? serve i ps s).map (i, ·)).toList ++
      record turns (turn serve i ps s).1 (turn serve i ps s).2

/-- The part of a record that belongs to a place. -/
def inPlace (i : Nat) (record : List (Nat × β)) : List β :=
  record.filterMap fun x => if x.1 = i then some x.2 else none

theorem inPlace_append (i : Nat) (before after : List (Nat × β)) :
    inPlace i (before ++ after) = inPlace i before ++ inPlace i after :=
  List.filterMap_append

@[simp] theorem inPlace_cons_self (i : Nat) (x : β) (rest : List (Nat × β)) :
    inPlace i ((i, x) :: rest) = x :: inPlace i rest := by
  simp [inPlace]

theorem inPlace_cons_of_ne {i j : Nat} (h : j ≠ i) (x : β) (rest : List (Nat × β)) :
    inPlace i ((j, x) :: rest) = inPlace i rest := by
  simp [inPlace, h]

theorem mem_inPlace {i : Nat} {x : β} {record : List (Nat × β)} :
    x ∈ inPlace i record ↔ (i, x) ∈ record := by
  simp [inPlace]

/-- The state that a service is led to by exchanges. -/
def after (xs : List (Nat × Exchange Reply)) (s : σ) : σ :=
  xs.foldl (fun s x => (serve x.2.1 s).2) s

variable {ps : List (Program Req Reply α)} {s : σ} {i : Nat}

/-- A turn reaches the program in its place and no other. -/
theorem turn_eq (i : Nat) (ps : List (Program Req Reply α)) (s : σ) :
    turn serve i ps s = match ps[i]? with
      | some (.ask r next) => (ps.set i (next (serve r s).1), (serve r s).2)
      | _ => (ps, s) := by
  induction ps generalizing i with
  | nil => cases i <;> rfl
  | cons p rest ih =>
    cases i with
    | zero => cases p <;> rfl
    | succ i =>
      rw [turn, ih, List.getElem?_cons_succ]
      cases rest[i]? with
      | none => rfl
      | some p => cases p <;> rfl

/-- A turn of a program that asks goes on record; any other turn leaves all as it is. -/
theorem record_cons (i : Nat) (turns : List Nat) (ps : List (Program Req Reply α)) (s : σ) :
    (turn serve i ps s = (ps, s) ∧ record serve (i :: turns) ps s = record serve turns ps s) ∨
    ∃ r next, ps[i]? = some (.ask r next) ∧
      turn serve i ps s = (ps.set i (next (serve r s).1), (serve r s).2) ∧
      record serve (i :: turns) ps s = (i, ⟨r, (serve r s).1⟩) ::
        record serve turns (ps.set i (next (serve r s).1)) (serve r s).2 := by
  have hturn := turn_eq serve i ps s
  rw [record, exchange?]
  -- nobody's turn, or that of a program that is over, leaves nothing on record
  cases hi : ps[i]? with
  | none =>
    rw [hi] at hturn
    rw [hturn]
    exact .inl ⟨rfl, rfl⟩
  | some p =>
    rw [hi] at hturn
    cases p with
    | done value =>
      rw [hturn]
      exact .inl ⟨rfl, rfl⟩
    | ask r next =>
      rw [hturn]
      exact .inr ⟨r, next, rfl, rfl, rfl⟩

/-- The exchanges lead to the state at the end. -/
theorem interleave_snd (turns : List Nat) (ps : List (Program Req Reply α)) (s : σ) :
    (interleave serve turns ps s).2 = after serve (record serve turns ps s) s := by
  induction turns generalizing ps s with
  | nil => rfl
  | cons i turns ih =>
    rw [interleave, ih]
    rcases record_cons serve i turns ps s with ⟨hturn, hrecord⟩ | ⟨r, next, -, hturn, hrecord⟩
    · rw [hturn, hrecord]
    · rw [hturn, hrecord]
      rfl

/-- The part of a record that belongs to a place is what the program there exchanges. -/
theorem takes_record {i : Nat} {p : Program Req Reply α} (turns : List Nat) (h : ps[i]? = some p) :
    ∃ p', (interleave serve turns ps s).1[i]? = some p' ∧
      p.Takes (inPlace i (record serve turns ps s)) p' := by
  induction turns generalizing ps s p with
  | nil => exact ⟨p, h, .refl p⟩
  | cons j turns ih =>
    rw [interleave]
    rcases record_cons serve j turns ps s with ⟨hturn, hrecord⟩ | ⟨r, next, hj, hturn, hrecord⟩
    · rw [hturn, hrecord]
      exact ih h
    · rw [hturn, hrecord]
      -- the turn is the program's own, or leaves it as it is
      by_cases hij : j = i
      · subst hij
        obtain rfl := Option.some.inj (h.symm.trans hj)
        obtain ⟨hlt, -⟩ := List.getElem?_eq_some_iff.1 h
        have hset : (ps.set j (next (serve r s).1))[j]? = some (next (serve r s).1) :=
          List.getElem?_set_self hlt
        obtain ⟨p', hp', htakes⟩ := ih (s := (serve r s).2) hset
        rw [inPlace_cons_self]
        exact ⟨p', hp', .ask htakes⟩
      · rw [inPlace_cons_of_ne hij]
        exact ih (by rwa [List.getElem?_set_ne hij])

/-- A reply on record is that of the service in the state that has been reached. -/
theorem reply_of_record {turns : List Nat} {before rest : List (Nat × Exchange Reply)} {i : Nat}
    {x : Exchange Reply} (h : record serve turns ps s = before ++ (i, x) :: rest) :
    x.2 = (serve x.1 (after serve before s)).1 := by
  induction turns generalizing ps s before with
  | nil => cases before <;> cases h
  | cons j turns ih =>
    rcases record_cons serve j turns ps s with ⟨-, hrecord⟩ | ⟨r, next, -, -, hrecord⟩
    · exact ih (hrecord.symm.trans h)
    · rw [hrecord] at h
      cases before with
      | nil =>
        cases h
        rfl
      | cons y before =>
        obtain ⟨rfl, hrest⟩ := List.cons.inj h
        show x.2 = (serve x.1 (after serve before (serve r s).2)).1
        exact ih hrest

/-- What goes on record comes from a program in the place. -/
theorem exists_getElem?_of_record {turns : List Nat} {i : Nat} {x : Exchange Reply}
    (h : (i, x) ∈ record serve turns ps s) : ∃ p, ps[i]? = some p := by
  induction turns generalizing ps s with
  | nil => cases h
  | cons j turns ih =>
    rcases record_cons serve j turns ps s with ⟨-, hrecord⟩ | ⟨r, next, hj, -, hrecord⟩
    · exact ih (hrecord ▸ h)
    · rw [hrecord] at h
      rcases List.mem_cons.1 h with heq | hrest
      · cases heq
        exact ⟨_, hj⟩
      · obtain ⟨p, hp⟩ := ih hrest
        obtain ⟨hlt, -⟩ := List.getElem?_eq_some_iff.1 hp
        rw [List.length_set] at hlt
        exact ⟨_, List.getElem?_eq_getElem hlt⟩

/-- A program that has made requests has made such as it can make. -/
theorem Takes.asks {P : Req → Prop} {p p' : Program Req Reply α} {xs : List (Exchange Reply)}
    (h : p.Takes xs p') (hp : p.Asks P) : ∀ x ∈ xs, P x.1 := by
  induction h with
  | refl p => exact List.forall_mem_nil _
  | ask _ ih => exact List.forall_mem_cons.2 ⟨hp.1, ih (hp.2 _)⟩

end Record

end Program

namespace Store

/-! ## Turning on and off -/

section Turned

variable {β : Type} {on off : β → Prop} {x : β} {l l' : List β}

/-- Along a list something is turned on, and not off again. -/
def TurnedOn (on off : β → Prop) (l : List β) : Prop :=
  ∃ before x rest, l = before ++ x :: rest ∧ on x ∧ ∀ y ∈ rest, ¬off y

theorem not_turnedOn_nil : ¬TurnedOn on off [] := by
  rintro ⟨before, x, rest, h, -⟩
  cases before <;> cases h

theorem turnedOn_cons :
    TurnedOn on off (x :: l) ↔ (on x ∧ ∀ y ∈ l, ¬off y) ∨ TurnedOn on off l := by
  constructor
  · rintro ⟨before, y, rest, h, hon, hoff⟩
    rcases List.cons_eq_append_iff.1 h with ⟨rfl, hrest⟩ | ⟨before, rfl, rfl⟩
    · cases hrest
      exact .inl ⟨hon, hoff⟩
    · exact .inr ⟨before, y, rest, rfl, hon, hoff⟩
  · rintro (⟨hon, hoff⟩ | ⟨before, y, rest, rfl, hon, hoff⟩)
    · exact ⟨[], x, l, rfl, hon, hoff⟩
    · exact ⟨x :: before, y, rest, rfl, hon, hoff⟩

theorem TurnedOn.exists_mem (h : TurnedOn on off l) : ∃ x ∈ l, on x := by
  obtain ⟨before, x, rest, rfl, hon, -⟩ := h
  exact ⟨x, by simp, hon⟩

/-- What has been turned off and not on again is not on. -/
theorem not_turnedOn_of_off {last : List β} (hx : off x) (hnot : ¬on x)
    (hlast : ∀ y ∈ last, ¬on y) : ¬TurnedOn on off (l ++ x :: last) := by
  intro h
  induction l with
  | nil =>
    rcases turnedOn_cons.1 h with ⟨hon, -⟩ | hrest
    · exact hnot hon
    · obtain ⟨y, hy, hon⟩ := hrest.exists_mem
      exact hlast y hy hon
  | cons y l ih =>
    rcases turnedOn_cons.1 h with ⟨-, hoff⟩ | hrest
    · exact hoff x (by simp) hx
    · exact ih hrest

/-- Of those that turn something on there is a last one. -/
theorem turnedOn_self (h : ∃ x ∈ l, on x) : TurnedOn on on l := by
  induction l with
  | nil => simp at h
  | cons x l ih =>
    rw [turnedOn_cons]
    by_cases hl : ∃ y ∈ l, on y
    · exact .inr (ih hl)
    · obtain ⟨y, hy, hon⟩ := h
      rcases List.mem_cons.1 hy with rfl | hy
      · exact .inl ⟨hon, fun z hz hz' => hl ⟨z, hz, hz'⟩⟩
      · exact absurd ⟨y, hy, hon⟩ hl

end Turned

/-- What requests turn on and off holds at the end if it has been turned on and not off again, or if
it has held from the beginning and has not been turned off. -/
theorem Content.carryOut_iff {β : Type} {S : Content → Prop} {f : β → Request} {on off : β → Prop}
    {xs : List β} (h : ∀ x ∈ xs, ∀ held : Content, S (held.answer (f x)).2 ↔ on x ∨ S held ∧ ¬off x)
    (held : Content) : S (held.carryOut (xs.map f)) ↔
      TurnedOn on off xs ∨ S held ∧ ∀ x ∈ xs, ¬off x := by
  induction xs generalizing held with
  | nil => simp [not_turnedOn_nil]
  | cons x xs ih =>
    obtain ⟨hx, hxs⟩ := List.forall_mem_cons.1 h
    rw [List.map_cons, carryOut_cons, ih hxs, hx, turnedOn_cons, List.forall_mem_cons]
    tauto

/-- What requests bring about has been brought about by one of them, or has been there before. -/
theorem Content.exists_of_carryOut {β : Type} {S : Content → Prop} {f : β → Request}
    {on : β → Prop} {xs : List β}
    (h : ∀ x ∈ xs, ∀ held : Content, S (held.answer (f x)).2 → on x ∨ S held) {held : Content}
    (hS : S (held.carryOut (xs.map f))) : (∃ x ∈ xs, on x) ∨ S held := by
  induction xs generalizing held with
  | nil => exact .inr hS
  | cons x xs ih =>
    obtain ⟨hx, hxs⟩ := List.forall_mem_cons.1 h
    rcases ih hxs hS with ⟨y, hy, hon⟩ | hafter
    · exact .inl ⟨y, List.mem_cons_of_mem _ hy, hon⟩
    · exact (hx held hafter).imp_left fun hon => ⟨x, List.mem_cons_self, hon⟩

/-! ## Records of a store -/

section Records

variable {α σ : Type} {serve : (r : Request) → σ → r.Reply × σ} {content : σ → Content}
  {ready : σ → Prop} {ps : List (Calls α)} {s : σ}

/-- A store that fails no request carries out what is on record. -/
theorem Attends.content_after (hattends : Attends False serve content ready) (hs : ready s)
    (xs : List (Nat × Exchange Request.Reply)) : ready (Program.after serve xs s) ∧
      content (Program.after serve xs s) = (content s).carryOut (xs.map (·.2.1)) := by
  induction xs generalizing s with
  | nil => exact ⟨hs, rfl⟩
  | cons x xs ih =>
    obtain ⟨hready, hcontent⟩ := ih (hattends.ready x.2.1 s hs)
    refine ⟨hready, hcontent.trans ?_⟩
    rw [List.map_cons, Content.carryOut_cons, (hattends.carriesOut hs x.2.1).2]

/-- Such a store answers every request on record. -/
theorem Attends.answered (hattends : Attends False serve content ready) (hs : ready s)
    {turns : List Nat} : ∀ x ∈ Program.record serve turns ps s, ∃ a, x.2.2 = .ok a := by
  intro x hx
  obtain ⟨before, rest, hrecord⟩ := List.append_of_mem hx
  have hreply := Program.reply_of_record serve (i := x.1) (x := x.2) hrecord
  rw [hreply]
  exact (hattends.carriesOut (hattends.content_after hs before).1 x.2.1).1

/-- A store that cannot be told from one in memory stays so as long as all requests that add to a
set add something. -/
theorem Backing.Twin.after {b : Backing} {m : Memory} (h : b.Twin m)
    {xs : List (Nat × Exchange Request.Reply)} (hxs : ∀ x ∈ xs, x.2.1.Adds) :
    ∃ m', (Program.after Backing.serve xs b).Twin m' := by
  induction xs generalizing b m with
  | nil => exact ⟨m, h⟩
  | cons x xs ih =>
    obtain ⟨hx, hxs⟩ := List.forall_mem_cons.1 hxs
    exact ih (h.serve hx).2 hxs

end Records

end Store

end EntityCache
