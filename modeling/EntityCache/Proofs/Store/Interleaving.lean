import EntityCache.Proofs.Store.Failures
import Mathlib.Data.List.Forall2

/-!
# Programs side by side on one store

Programs that run side by side put their requests to one service, which answers them one at a time.
`Program.interleave` follows a list of turns, which says whose request comes next: any order of the
requests is such a list, and no list leaves the programs in a place from which they cannot end
(`Program.exists_ended`).

Where the requests of all programs are `Independent` of each other, it does not matter how they are
interleaved.  What counts is what is left to be done: whenever a request is made, the store gets
nearer to what all requests would make of it, and does not get anywhere else (`Ahead.answer`).
-/

namespace EntityCache

namespace Program

section Turns

variable {Req : Type} {Reply : Req → Type} {α σ : Type} (serve : (r : Req) → σ → Reply r × σ)

/-- One of the programs makes its next request.  If there is no such program, or it has ended,
nothing happens. -/
def turn : Nat → List (Program Req Reply α) → σ → List (Program Req Reply α) × σ
  | 0, ask r next :: rest, s => (next (serve r s).1 :: rest, (serve r s).2)
  | i + 1, p :: rest, s => (p :: (turn i rest s).1, (turn i rest s).2)
  | _, ps, s => (ps, s)

/-- Programs take turns. -/
def interleave : List Nat → List (Program Req Reply α) → σ → List (Program Req Reply α) × σ
  | [], ps, s => (ps, s)
  | i :: turns, ps, s => interleave turns (turn serve i ps s).1 (turn serve i ps s).2

variable {ps : List (Program Req Reply α)} {s : σ}

/-- A turn does nothing or lets one program make its next request. -/
theorem turn_cases (i : Nat) (ps : List (Program Req Reply α)) (s : σ) :
    turn serve i ps s = (ps, s) ∨ ∃ before r next after, ps = before ++ ask r next :: after ∧
      turn serve i ps s = (before ++ next (serve r s).1 :: after, (serve r s).2) := by
  -- the programs before the one whose turn it is stay where they are
  induction ps generalizing i with
  | nil => cases i <;> exact .inl rfl
  | cons p rest ih =>
    cases i with
    | zero =>
      cases p with
      | done value => exact .inl rfl
      | ask r next => exact .inr ⟨[], r, next, rest, rfl, rfl⟩
    | succ i =>
      rw [turn]
      rcases ih i with hsame | ⟨before, r, next, after, rfl, hturn⟩
      · rw [hsame]
        exact .inl rfl
      · rw [hturn]
        exact .inr ⟨p :: before, r, next, after, rfl, rfl⟩

/-- What every request preserves holds after any turns. -/
theorem interleave_induction {P : List (Program Req Reply α) → σ → Prop}
    (hstep : ∀ before r next after s, P (before ++ ask r next :: after) s →
      P (before ++ next (serve r s).1 :: after) (serve r s).2)
    (turns : List Nat) (h : P ps s) :
    P (interleave serve turns ps s).1 (interleave serve turns ps s).2 := by
  induction turns generalizing ps s with
  | nil => exact h
  | cons i turns ih =>
    rw [interleave]
    apply ih
    rcases turn_cases serve i ps s with hsame | ⟨before, r, next, after, rfl, hturn⟩
    · rw [hsame]
      exact h
    · rw [hturn]
      exact hstep before r next after s h

theorem interleave_append (turns more : List Nat) (ps : List (Program Req Reply α)) (s : σ) :
    interleave serve (turns ++ more) ps s =
      interleave serve more (interleave serve turns ps s).1 (interleave serve turns ps s).2 := by
  induction turns generalizing ps s with
  | nil => rfl
  | cons i turns ih => exact ih _ _

/-- If only the first program takes turns, it runs by itself. -/
theorem exists_interleave_first (p : Program Req Reply α) (rest : List (Program Req Reply α))
    (s : σ) : ∃ turns, interleave serve turns (p :: rest) s =
      (done (p.run serve s).1 :: rest, (p.run serve s).2) := by
  induction p generalizing s with
  | done value => exact ⟨[], rfl⟩
  | ask r next ih =>
    obtain ⟨turns, hturns⟩ := ih (serve r s).1 (serve r s).2
    exact ⟨0 :: turns, hturns⟩

/-- The first program does not notice the turns of the others. -/
theorem interleave_rest (turns : List Nat) (p : Program Req Reply α)
    (rest : List (Program Req Reply α)) (s : σ) :
    interleave serve (turns.map (· + 1)) (p :: rest) s =
      (p :: (interleave serve turns rest s).1, (interleave serve turns rest s).2) := by
  induction turns generalizing rest s with
  | nil => rfl
  | cons i turns ih => exact ih _ _

/-- There are turns after which all programs have ended. -/
theorem exists_ended (ps : List (Program Req Reply α)) (s : σ) :
    ∃ turns, ∀ p ∈ (interleave serve turns ps s).1, p.value?.isSome := by
  induction ps generalizing s with
  | nil => exact ⟨[], List.forall_mem_nil _⟩
  | cons p rest ih =>
    obtain ⟨first, hfirst⟩ := exists_interleave_first serve p rest s
    obtain ⟨turns, hturns⟩ := ih (p.run serve s).2
    refine ⟨first ++ turns.map (· + 1), ?_⟩
    rw [interleave_append, hfirst, interleave_rest]
    exact List.forall_mem_cons.2 ⟨rfl, hturns⟩

/-- So there are after any turns that programs have taken. -/
theorem exists_ended_append (turns : List Nat) (ps : List (Program Req Reply α)) (s : σ) :
    ∃ more, ∀ p ∈ (interleave serve (turns ++ more) ps s).1, p.value?.isSome := by
  simp only [interleave_append]
  exact exists_ended serve _ _

end Turns

end Program

namespace Store

/-! ## Programs that carry requests out -/

section CarriesOut

variable {ε : Type} {r : Request} {rs : List Request} {result : Except ε Unit}

/-- A program that has ended has nothing left to do. -/
theorem CarriesOut.of_done (h : CarriesOut rs (.done result)) :
    result = .ok () ∧ ∀ held : Content, held.carryOut rs = held := by
  generalize hp : (.done result : Calls (Except ε Unit)) = p at h
  induction h with
  | done =>
    cases hp
    exact ⟨rfl, fun _ => rfl⟩
  | skip hr _ ih =>
    obtain ⟨hvalue, hrest⟩ := ih hp
    exact ⟨hvalue, fun held => by rw [Content.carryOut_cons, hr, hrest]⟩
  | ask => cases hp

/-- A program that asks asks for one of its requests, and what it has left out before changes
nothing. -/
theorem CarriesOut.of_ask {next : r.Reply → Calls (Except ε Unit)}
    (h : CarriesOut rs (.ask r next)) :
    ∃ skipped rest, rs = skipped ++ r :: rest ∧
      (∀ held : Content, held.carryOut skipped = held) ∧
      ∀ a, CarriesOut rest (next (.ok a)) := by
  generalize hp : (.ask r next : Calls (Except ε Unit)) = p at h
  induction h with
  | done => cases hp
  | skip hr _ ih =>
    obtain ⟨skipped, rest, rfl, hskipped, hrest⟩ := ih hp
    refine ⟨_ :: skipped, rest, rfl, fun held => ?_, hrest⟩
    rw [Content.carryOut_cons, hr, hskipped]
  | ask h =>
    cases hp
    exact ⟨[], _, rfl, fun _ => rfl, h⟩

end CarriesOut

/-! ## Independent requests in any order -/

namespace Content

/-- Entries without a key in common may be written in either order. -/
theorem independent_mset_mset {entries entries' : List (String × String)}
    (h : ∀ k ∈ entries.map (·.1), k ∉ entries'.map (·.1)) :
    Independent (.mset entries) (.mset entries') := by
  intro held
  refine Content.ext (funext fun k => ?_) rfl
  show ((held.put entries).put entries').strings k = ((held.put entries').put entries).strings k
  by_cases hk : k ∈ entries.map (·.1)
  · rw [strings_put_of_notMem (h k hk)]
    exact strings_put_congr _ _ hk
  · rw [strings_put_of_notMem hk]
    by_cases hk' : k ∈ entries'.map (·.1)
    · exact strings_put_congr _ _ hk'
    · rw [strings_put_of_notMem hk', strings_put_of_notMem hk', strings_put_of_notMem hk]

/-- Independent requests leave the same behind in any order. -/
theorem carryOut_perm {rs rs' : List Request} (hperm : rs.Perm rs')
    (h : rs.Pairwise Independent) (held : Content) : held.carryOut rs = held.carryOut rs' := by
  induction hperm generalizing held with
  | nil => rfl
  | cons r _ ih => exact ih (List.pairwise_cons.1 h).2 _
  | swap r r' rest =>
    have hswap : Independent r' r := (List.pairwise_cons.1 h).1 r List.mem_cons_self
    rw [carryOut_cons, carryOut_cons, carryOut_cons, carryOut_cons, hswap]
  | trans hfirst _ ih ih' =>
    exact (ih h held).trans (ih' (hfirst.pairwise h fun hr => hr.symm) held)

end Content

/-! ## Interleaved programs -/

section Services

variable {ε σ : Type} {serve : (r : Request) → σ → r.Reply × σ} {content : σ → Content}
  {ready : σ → Prop} {s : σ} {goal held : Content} {ps : List (Calls (Except ε Unit))}

/-- A service that fails no request carries it out. -/
theorem Attends.carriesOut (hattends : Attends False serve content ready) (hs : ready s)
    (r : Request) : (∃ a, (serve r s).1 = .ok a) ∧
      content (serve r s).2 = ((content s).answer r).2 := by
  have houtcome := hattends.outcome r s hs
  generalize (serve r s).1 = reply, content (serve r s).2 = after at houtcome ⊢
  cases houtcome with
  | failed h => exact h.elim
  | answered a => exact ⟨⟨a, rfl⟩, rfl⟩

/-- Programs with requests left that are independent of each other, and that make of what is held
what it is to become. -/
def Ahead (goal : Content) (ps : List (Calls (Except ε Unit))) (held : Content) : Prop :=
  ∃ rss, List.Forall₂ CarriesOut rss ps ∧ rss.flatten.Pairwise Content.Independent ∧
    held.carryOut rss.flatten = goal

/-- It does not matter whose request is made next. -/
theorem Ahead.answer {before after : List (Calls (Except ε Unit))} {r : Request}
    {next : r.Reply → Calls (Except ε Unit)}
    (h : Ahead goal (before ++ .ask r next :: after) held) (a : r.Answer) :
    Ahead goal (before ++ next (.ok a) :: after) (held.answer r).2 := by
  obtain ⟨rss, hcarry, hindependent, hgoal⟩ := h
  obtain ⟨rs, behind, hrs, hbehind, hdrop⟩ :=
    List.forall₂_cons_right_iff.1 (List.forall₂_drop_append rss before _ hcarry)
  have hahead := List.forall₂_take_append rss before _ hcarry
  rw [← List.take_append_drop before.length rss, hdrop] at hindependent hgoal
  generalize rss.take before.length = ahead at hahead hindependent hgoal
  -- requests to be made may be left out if they would change nothing; this one is made
  obtain ⟨skipped, rest, rfl, hskipped, hrest⟩ := hrs.of_ask
  refine ⟨ahead ++ rest :: behind, List.rel_append hahead (.cons (hrest a) hbehind), ?_, ?_⟩
  · -- a request has been struck off
    refine hindependent.sublist ?_
    rw [List.flatten_append, List.flatten_append, List.flatten_cons, List.flatten_cons]
    refine .append (.refl _) (.append ?_ (.refl _))
    exact ((List.sublist_cons_self r rest).trans (List.sublist_append_right _ _))
  · rw [List.flatten_append, List.flatten_cons, List.append_assoc] at hindependent
    have hr : ∀ r' ∈ ahead.flatten, Content.Independent r r' := fun r' hr' =>
      ((List.pairwise_append.1 hindependent).2.2 r' hr' r (by simp)).symm
    rw [← hgoal, List.flatten_append, List.flatten_append, List.flatten_cons, List.flatten_cons,
      Content.carryOut_append, Content.carryOut_append, Content.carryOut_append,
      Content.carryOut_append, Content.carryOut_append, hskipped, Content.carryOut_answer hr]
    rfl

/-- Programs that have ended with nothing left have reached what was to be. -/
theorem Ahead.ended (h : Ahead goal ps held) (hended : ∀ p ∈ ps, p.value?.isSome) :
    (∀ p ∈ ps, p.value? = some (.ok ())) ∧ held = goal := by
  obtain ⟨rss, hcarry, -, rfl⟩ := h
  induction hcarry with
  | nil => exact ⟨List.forall_mem_nil _, rfl⟩
  | @cons rs p rss ps hp _ ih =>
    obtain ⟨hvalue, hended⟩ := List.forall_mem_cons.1 hended
    obtain ⟨hvalues, hheld⟩ := ih hended
    cases p with
    | ask r next => cases hvalue
    | done result =>
      obtain ⟨rfl, hrs⟩ := hp.of_done
      rw [List.flatten_cons, Content.carryOut_append, hrs, ← hheld]
      exact ⟨List.forall_mem_cons.2 ⟨rfl, hvalues⟩, rfl⟩

/-- Programs with independent requests, however they take turns on a store that fails none: once
they have ended, none has failed, and all the requests have been carried out. -/
theorem content_interleave (hattends : Attends False serve content ready) {s₀ : σ} (hs : ready s₀)
    {rss : List (List Request)} (hps : List.Forall₂ CarriesOut rss ps)
    (hindependent : rss.flatten.Pairwise Content.Independent) {turns : List Nat}
    (hended : ∀ p ∈ (Program.interleave serve turns ps s₀).1, p.value?.isSome) :
    (∀ p ∈ (Program.interleave serve turns ps s₀).1, p.value? = some (.ok ())) ∧
      content (Program.interleave serve turns ps s₀).2 = (content s₀).carryOut rss.flatten := by
  -- on the way the store is ready, and what is left leads to where everything leads
  obtain ⟨-, hahead⟩ := Program.interleave_induction serve
    (P := fun ps s => ready s ∧ Ahead ((content s₀).carryOut rss.flatten) ps (content s))
    (fun before r next after s h => by
      obtain ⟨⟨a, ha⟩, hcontent⟩ := hattends.carriesOut h.1 r
      rw [ha, hcontent]
      exact ⟨hattends.ready r s h.1, h.2.answer a⟩)
    turns ⟨hs, rss, hps, hindependent, rfl⟩
  exact hahead.ended hended

end Services

end Store

end EntityCache
