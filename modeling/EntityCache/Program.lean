/-!
# Programs that ask

`Program Req Reply α` is a computation that asks for replies to requests, one at a time, and ends
with an `α`.  It fixes which requests are made and in which order, and leaves open who answers:
`Program.run` lets one service with a state answer everything, and an interleaving of several
programs lets the service answer them in any order, a request at a time.
-/

namespace EntityCache

/-- A computation with requests `Req`, each answered in its own type. -/
inductive Program (Req : Type) (Reply : Req → Type) (α : Type) where
  | done (value : α)
  | ask (request : Req) (next : Reply request → Program Req Reply α)

namespace Program

variable {Req : Type} {Reply : Req → Type} {α β σ : Type}

/-- Goes on with `f` where the program ends. -/
def bind : Program Req Reply α → (α → Program Req Reply β) → Program Req Reply β
  | done value, f => f value
  | ask request next, f => ask request fun reply => bind (next reply) f

instance : Monad (Program Req Reply) where
  pure := done
  bind := bind

/-- The program of one request. -/
def request (r : Req) : Program Req Reply (Reply r) := ask r done

/-- Runs a program against a service with state `σ`. -/
def run (serve : (r : Req) → σ → Reply r × σ) : Program Req Reply α → σ → α × σ
  | done value, state => (value, state)
  | ask r next, state =>
    let (reply, state) := serve r state
    run serve (next reply) state

/-- The requests that a run makes, in order. -/
def requests (serve : (r : Req) → σ → Reply r × σ) : Program Req Reply α → σ → List Req
  | done _, _ => []
  | ask r next, state =>
    let (reply, state) := serve r state
    r :: requests serve (next reply) state

/-- Runs a program against a service that may keep a request waiting: up to the first request that
has to wait, or to the end. -/
def proceed (serve : (r : Req) → σ → Option (Reply r × σ)) :
    Program Req Reply α → σ → Program Req Reply α × σ
  | done value, state => (done value, state)
  | ask r next, state =>
    match serve r state with
    | some (reply, state) => proceed serve (next reply) state
    | none => (ask r next, state)

/-- The value of a program that has ended. -/
def value? : Program Req Reply α → Option α
  | done value => some value
  | ask _ _ => none

/-- The same program with its requests put to another service. -/
def mapRequests {Req₂ : Type} {Reply₂ : Req₂ → Type} (f : Req → Req₂)
    (back : (r : Req) → Reply₂ (f r) → Reply r) : Program Req Reply α → Program Req₂ Reply₂ α
  | done value => done value
  | ask r next => ask (f r) fun reply => mapRequests f back (next (back r reply))

@[simp] theorem pure_eq_done (value : α) :
    (pure value : Program Req Reply α) = done value := rfl

@[simp] theorem bind_eq_bind (p : Program Req Reply α) (f : α → Program Req Reply β) :
    p >>= f = p.bind f := rfl

theorem bind_done (p : Program Req Reply α) : p.bind done = p := by
  induction p with
  | done => rfl
  | ask r next ih => simp [bind, ih]

theorem bind_assoc {γ : Type} (p : Program Req Reply α) (f : α → Program Req Reply β)
    (g : β → Program Req Reply γ) : (p.bind f).bind g = p.bind fun x => (f x).bind g := by
  induction p with
  | done => rfl
  | ask r next ih => simp [bind, ih]

instance : LawfulMonad (Program Req Reply) :=
  LawfulMonad.mk' _ bind_done (fun _ _ => rfl) bind_assoc

/-- A run of `p.bind f` is a run of `p` followed by a run of `f`. -/
theorem run_bind (serve : (r : Req) → σ → Reply r × σ) (p : Program Req Reply α)
    (f : α → Program Req Reply β) (state : σ) :
    (p.bind f).run serve state = (f (p.run serve state).1).run serve (p.run serve state).2 := by
  induction p generalizing state with
  | done => rfl
  | ask r next ih => simp [bind, run, ih]

end Program

end EntityCache
