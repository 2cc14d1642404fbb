import EntityCache.Proofs.Store.Agreement
import EntityCache.Store.Observed

/-!
# Programs on a store in memory and on a database

A program that adds something whenever it adds to a set leaves no hollow key behind.  Then nothing
tells a store in memory from a database (`Alike.run`): the program has the same result on both, and
they hold the same afterwards.  `Backing.Twin` says so of a store of either kind.
-/

namespace EntityCache

namespace Program

variable {Req : Type} {Reply : Req → Type} {α β : Type} {P : Req → Prop}

/-- Every request that the program can make, whatever the replies, has the property. -/
def Asks (P : Req → Prop) : Program Req Reply α → Prop
  | done _ => True
  | ask r next => P r ∧ ∀ reply, (next reply).Asks P

theorem Asks.bind {p : Program Req Reply α} {f : α → Program Req Reply β} (hp : p.Asks P)
    (hf : ∀ x, (f x).Asks P) : (p.bind f).Asks P := by
  induction p with
  | done x => exact hf x
  | ask r next ih => exact ⟨hp.1, fun reply => ih reply (hp.2 reply)⟩

theorem Asks.mono {Q : Req → Prop} {p : Program Req Reply α} (hp : p.Asks P)
    (h : ∀ r, P r → Q r) : p.Asks Q := by
  induction p with
  | done x => trivial
  | ask r next ih => exact ⟨h r hp.1, fun reply => ih reply (hp.2 reply)⟩

end Program

namespace Store

variable {α : Type} {p : Calls α} {m : Memory} {d : Database} {r : Request} {b : Backing}

/-- A request that adds something if it adds to a set. -/
def Request.Adds (r : Request) : Prop := ∀ key, r ≠ .sadd key []

/-- A store in memory without hollow keys, and an open database of the same content. -/
structure Alike (m : Memory) (d : Database) : Prop where
  notHollow : ∀ key, ¬m.Hollow key
  isOpen : d.isOpen = true
  sound : d.tables.Sound
  content : m.content = d.tables.content

theorem alike_empty : Alike {} {} where
  notHollow key h := by simpa using h.2
  isOpen := rfl
  sound := Tables.sound_empty
  content := Memory.content_empty.trans Tables.content_empty.symm

/-- Such a request is answered alike, and leaves the stores alike. -/
theorem Alike.serve (h : Alike m d) (hr : r.Adds) :
    (m.serve r).1 = (d.serve r).1 ∧ Alike (m.serve r).2 (d.serve r).2 := by
  obtain ⟨tables, isOpen⟩ := d
  obtain rfl : isOpen = true := h.isOpen
  obtain ⟨hreply, t', hsound, hcontent, hleft⟩ := serve_alike_iff h.sound h.content r
  refine ⟨hreply.2 fun _ _ key _ => h.notHollow key, ⟨fun key hhollow => ?_, ?_, ?_, ?_⟩⟩
  · rcases Memory.Hollow.of_answer hhollow with hbefore | hadd
    · exact h.notHollow key hbefore
    · exact hr key hadd
  · rw [hleft]
  · rwa [hleft]
  · rwa [hleft]

/-- So is a program of such requests. -/
theorem Alike.run (h : Alike m d) (hp : p.Asks Request.Adds) :
    (p.run Memory.serve m).1 = (p.run Database.serve d).1 ∧
      Alike (p.run Memory.serve m).2 (p.run Database.serve d).2 := by
  induction p generalizing m d with
  | done x => exact ⟨rfl, h⟩
  | ask r next ih =>
    obtain ⟨hreply, halike⟩ := h.serve hp.1
    show ((next (m.serve r).1).run Memory.serve (m.serve r).2).1 =
        ((next (d.serve r).1).run Database.serve (d.serve r).2).1 ∧
      Alike ((next (m.serve r).1).run Memory.serve (m.serve r).2).2
        ((next (d.serve r).1).run Database.serve (d.serve r).2).2
    rw [hreply]
    exact ih _ halike (hp.2 _)

namespace Backing

/-- What a store of either kind holds. -/
def content : Backing → Content
  | memory m => m.content
  | database d => d.tables.content

/-- A store of either kind that has just been made. -/
def Fresh (b : Backing) : Prop := b = .memory {} ∨ b = .database {}

/-- A store of either kind that cannot be told from a store in memory, or is that one. -/
inductive Twin : Backing → Memory → Prop where
  | memory (m : Memory) : Twin (.memory m) m
  | database {m : Memory} {d : Database} (alike : Alike m d) : Twin (.database d) m

/-- A fresh store has the empty memory as its twin. -/
theorem Fresh.twin (h : b.Fresh) : b.Twin {} := by
  rcases h with rfl | rfl
  · exact .memory {}
  · exact .database alike_empty

/-- A store and its twin have the same content. -/
theorem Twin.content_eq (h : b.Twin m) : b.content = m.content := by
  cases h with
  | memory m => rfl
  | database alike => exact alike.content.symm

theorem run_memory (p : Calls α) (m : Memory) :
    p.run serve (.memory m) = ((p.run Memory.serve m).1, .memory (p.run Memory.serve m).2) := by
  induction p generalizing m with
  | done x => rfl
  | ask r next ih => exact ih _ _

theorem run_database (p : Calls α) (d : Database) :
    p.run serve (.database d) = ((p.run Database.serve d).1, .database (p.run Database.serve d).2) := by
  induction p generalizing d with
  | done x => rfl
  | ask r next ih => exact ih _ _

/-- A program does the same on both, and they stay indistinguishable. -/
theorem Twin.run (h : b.Twin m) (hp : p.Asks Request.Adds) :
    (p.run serve b).1 = (p.run Memory.serve m).1 ∧
      (p.run serve b).2.Twin (p.run Memory.serve m).2 := by
  cases h with
  | memory m =>
    rw [run_memory]
    exact ⟨rfl, .memory _⟩
  | database alike =>
    obtain ⟨hresult, halike⟩ := alike.run hp
    rw [run_database]
    exact ⟨hresult.symm, .database halike⟩

/-- In particular a request gets the same reply from both. -/
theorem Twin.serve {r : Request} (h : b.Twin m) (hr : r.Adds) :
    (b.serve r).1 = .ok (m.answer r).1 ∧ (b.serve r).2.Twin (m.answer r).2 :=
  h.run (p := .ask r .done) ⟨hr, fun _ => trivial⟩

/-- On a store that has just been made a program has the result that it has in memory. -/
theorem Fresh.run_eq (h : b.Fresh) (hp : p.Asks Request.Adds) :
    (p.run serve b).1 = (p.run Memory.serve {}).1 :=
  (h.twin.run hp).1

end Backing

end Store

end EntityCache
