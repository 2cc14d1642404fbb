import EntityCache.Program

/-!
# What a program exchanges with its surroundings

An `Exchange` is a request with its reply.  `p.Takes xs q` says that `p` makes the requests of `xs`
in this order, is given their replies, and has `q` left to do; it says nothing about who replies, or
what else happens in between.  The exchanges of a program with one service are such a list
(`takes_exchanges`).
-/

namespace EntityCache

/-- A request with its reply. -/
abbrev Exchange {Req : Type} (Reply : Req → Type) := (r : Req) × Reply r

namespace Program

variable {Req : Type} {Reply : Req → Type} {α β σ : Type}

/-- A program has a value if it is over. -/
theorem value?_eq_some {p : Program Req Reply α} {value : α} :
    p.value? = some value ↔ p = .done value := by
  cases p <;> simp [value?]

/-- The program makes these requests, is given these replies, and is left as another one. -/
inductive Takes : Program Req Reply α → List (Exchange Reply) → Program Req Reply α → Prop where
  | refl (p : Program Req Reply α) : Takes p [] p
  | ask {r : Req} {reply : Reply r} {next : Reply r → Program Req Reply α}
      {xs : List (Exchange Reply)} {p' : Program Req Reply α} (h : Takes (next reply) xs p') :
      Takes (.ask r next) (⟨r, reply⟩ :: xs) p'

/-- The exchanges of a run, in order. -/
def exchanges (serve : (r : Req) → σ → Reply r × σ) :
    Program Req Reply α → σ → List (Exchange Reply)
  | done _, _ => []
  | ask r next, state => ⟨r, (serve r state).1⟩ ::
      exchanges serve (next (serve r state).1) (serve r state).2

/-- A program that runs takes the exchanges of its run. -/
theorem takes_exchanges (serve : (r : Req) → σ → Reply r × σ) (p : Program Req Reply α)
    (state : σ) : p.Takes (p.exchanges serve state) (.done (p.run serve state).1) := by
  induction p generalizing state with
  | done value => exact .refl _
  | ask r next ih => exact .ask (ih _ _)

namespace Takes

variable {p p' p'' : Program Req Reply α} {xs ys : List (Exchange Reply)} {u : α} {v : β}

/-- Exchanges are taken one list after the other. -/
theorem trans (h : p.Takes xs p') (h' : p'.Takes ys p'') : p.Takes (xs ++ ys) p'' := by
  induction h with
  | refl p => exact h'
  | ask _ ih => exact .ask (ih h')

/-- A program that has ended stays as it is. -/
theorem eq_of_done (h : (Program.done u).Takes xs p) : p = .done u := by
  cases h
  rfl

/-- A program that has ended exchanges nothing more. -/
theorem of_done {u' : α} (h : (Program.done u : Program Req Reply α).Takes xs (.done u')) :
    xs = [] ∧ u' = u := by
  cases h
  exact ⟨rfl, rfl⟩

/-- A program that ends has had its first request answered. -/
theorem of_ask {r : Req} {next : Reply r → Program Req Reply α}
    (h : (Program.ask r next).Takes xs (.done u)) :
    ∃ reply ys, xs = ⟨r, reply⟩ :: ys ∧ (next reply).Takes ys (.done u) := by
  cases h with
  | ask h => exact ⟨_, _, rfl, h⟩

/-- A program that goes on with another takes the exchanges of both. -/
theorem bind {f : α → Program Req Reply β} {q : Program Req Reply β} (h : p.Takes xs (.done u))
    (h' : (f u).Takes ys q) : (p.bind f).Takes (xs ++ ys) q := by
  induction p generalizing xs with
  | done value =>
    obtain ⟨rfl, rfl⟩ := h.of_done
    exact h'
  | ask r next ih =>
    obtain ⟨reply, zs, rfl, hrest⟩ := h.of_ask
    exact .ask (ih reply hrest)

/-- One program after another: the first has ended, then the second. -/
theorem of_bind {f : α → Program Req Reply β} (h : (p.bind f).Takes xs (.done v)) :
    ∃ u ys zs, xs = ys ++ zs ∧ p.Takes ys (.done u) ∧ (f u).Takes zs (.done v) := by
  induction p generalizing xs with
  | done value => exact ⟨value, [], xs, rfl, .refl _, h⟩
  | ask r next ih =>
    obtain ⟨reply, rest, rfl, hrest⟩ := h.of_ask
    obtain ⟨u, ys, zs, rfl, hys, hzs⟩ := ih reply hrest
    exact ⟨u, ⟨r, reply⟩ :: ys, zs, rfl, .ask hys, hzs⟩

/-- Requests that are put to another service are exchanged with that one. -/
theorem of_mapRequests {Req₂ : Type} {Reply₂ : Req₂ → Type} {f : Req → Req₂}
    {back : (r : Req) → Reply₂ (f r) → Reply r} {xs : List (Exchange Reply₂)}
    (h : (p.mapRequests f back).Takes xs (.done u)) :
    ∃ ys : List ((r : Req) × Reply₂ (f r)), xs = ys.map (fun y => ⟨f y.1, y.2⟩) ∧
      p.Takes (ys.map fun y => ⟨y.1, back y.1 y.2⟩) (.done u) := by
  induction p generalizing xs with
  | done value =>
    obtain ⟨rfl, rfl⟩ := of_done h
    exact ⟨[], rfl, .refl _⟩
  | ask r next ih =>
    obtain ⟨reply, rest, rfl, hrest⟩ := of_ask h
    obtain ⟨ys, rfl, hys⟩ := ih (back r reply) hrest
    exact ⟨⟨r, reply⟩ :: ys, rfl, .ask hys⟩

end Takes

end Program

end EntityCache
