import Mathlib.Data.List.Forall2
import Mathlib.Logic.Basic

/-!
# Changes that keep or fix what is observed

A change `Settles` an observation of a state if it leaves the observation as it is, or if it makes
of it one fixed thing whatever it was.  Changes one after another settle what each of them settles,
since the last one that fixes an observation decides it.  A change that is made again therefore
leaves every observation that it settles as the first time has left it (`Settles.again`).

Of two changes the second `Overrides` the first if it fixes what is observed unless both keep it.
Then nothing shows of the first once the second has been made (`Overrides.after`).
-/

namespace EntityCache

variable {σ α ι : Type} {obs : σ → α} {f g : σ → σ}

/-- The change keeps what is observed, or fixes it. -/
def Settles (obs : σ → α) (f : σ → σ) : Prop :=
  (∀ s, obs (f s) = obs s) ∨ ∃ a, ∀ s, obs (f s) = a

namespace Settles

theorem keeps (h : ∀ s, obs (f s) = obs s) : Settles obs f := .inl h

theorem fixes (a : α) (h : ∀ s, obs (f s) = a) : Settles obs f := .inr ⟨a, h⟩

theorem comp (hg : Settles obs g) (hf : Settles obs f) : Settles obs fun s => g (f s) := by
  rcases hg with hkeep | ⟨a, ha⟩
  · rcases hf with hkeep' | ⟨a, ha⟩
    · exact keeps fun s => (hkeep (f s)).trans (hkeep' s)
    · exact fixes a fun s => (hkeep (f s)).trans (ha s)
  · exact fixes a fun s => ha (f s)

theorem foldl {step : σ → ι → σ} {xs : List ι} (h : ∀ x ∈ xs, Settles obs (step · x)) :
    Settles obs (xs.foldl step) := by
  induction xs with
  | nil => exact keeps fun _ => rfl
  | cons x xs ih =>
    obtain ⟨hx, hxs⟩ := List.forall_mem_cons.1 h
    exact (ih hxs).comp hx

/-- A change that is made again leaves what it settles as it was after the first time. -/
theorem again (h : Settles obs f) (s : σ) : obs (f (f s)) = obs (f s) := by
  rcases h with hkeep | ⟨a, ha⟩
  · exact hkeep (f s)
  · rw [ha, ha]

end Settles

/-- Both changes keep what is observed, or the second fixes it. -/
def Overrides (obs : σ → α) (f g : σ → σ) : Prop :=
  ((∀ s, obs (f s) = obs s) ∧ ∀ s, obs (g s) = obs s) ∨ ∃ a, ∀ s, obs (g s) = a

/-- A change that settles overrides itself. -/
theorem Settles.overrides (h : Settles obs f) : Overrides obs f f :=
  h.imp_left fun hkeep => ⟨hkeep, hkeep⟩

namespace Overrides

theorem comp {f' g' : σ → σ} (hg : Overrides obs f' g') (hf : Overrides obs f g) :
    Overrides obs (fun s => f' (f s)) fun s => g' (g s) := by
  rcases hg with ⟨hkeep, hkeep'⟩ | ⟨a, ha⟩
  · rcases hf with ⟨hkept, hkept'⟩ | ⟨a, ha⟩
    · exact .inl ⟨fun s => (hkeep (f s)).trans (hkept s), fun s => (hkeep' (g s)).trans (hkept' s)⟩
    · exact .inr ⟨a, fun s => (hkeep' (g s)).trans (ha s)⟩
  · exact .inr ⟨a, fun s => ha (g s)⟩

theorem foldl {step : σ → ι → σ} {xs ys : List ι}
    (h : List.Forall₂ (fun x y => Overrides obs (step · x) (step · y)) xs ys) :
    Overrides obs (xs.foldl step) (ys.foldl step) := by
  induction h with
  | nil => exact .inl ⟨fun _ => rfl, fun _ => rfl⟩
  | cons hx _ ih => exact ih.comp hx

/-- Nothing shows of a change after one that overrides it. -/
theorem after (h : Overrides obs f g) (s : σ) : obs (g (f s)) = obs (g s) := by
  rcases h with ⟨hkeep, hkeep'⟩ | ⟨a, ha⟩
  · rw [hkeep', hkeep, hkeep']
  · rw [ha, ha]

end Overrides

end EntityCache
