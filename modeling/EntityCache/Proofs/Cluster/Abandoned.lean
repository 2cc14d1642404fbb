import EntityCache.Proofs.Cluster.Exclusion

/-!
# Locks of abandoned flights

An abandoned flight takes its mark back at once, while its lock is released at some later moment.
In between another flight of the node can mark the agent and acquire the same lock, which its owner
holds already; the release, which names the owner and not the acquisition, then takes the lock from
it (`Fleet.abandonedRelease_takes_lock`).

`Fleet.always_recorded_iff` says that this is all that can go wrong: the lock service records the
locks of all flights throughout a run exactly if no abandoned lock is released while a flight holds
it as the same owner.
-/

namespace EntityCache

namespace Cluster

open Firing

namespace World

variable {own : String → String → Prop} {lockPrefix : String} {a : Act} {acts : List Act}
  {w : World}

instance (a : Act) (w : World) : Decidable (a.Spares w) :=
  match a with
  | .move (.release index) =>
    decidable_of_iff (∀ left ∈ w.releases[index]?, ∀ entry ∈ w.flights.toList,
        ∀ held ∈ entry.2.lock, held.key = left.key → held.owner ≠ left.owner)
      ⟨fun h left hleft id f held hf =>
        h left hleft (id, f) (Std.ExtTreeMap.mem_toList_iff_getElem?_eq_some.2 hf) held,
      fun h left hleft entry hentry held =>
        h left hleft entry.1 entry.2 held
          (Std.ExtTreeMap.mem_toList_iff_getElem?_eq_some.1 hentry)⟩
  | .move (.fire ..) | .move (.exit ..) | .move (.grant _) | .move (.resume _) | .move (.beat _)
  | .move (.abandon _) | .move (.pass _) | .start .. | .reschedule .. => isTrue trivial

/-- The lock service has every flight that holds a lock for the owner of that lock. -/
def Recorded (w : World) : Prop :=
  ∀ (id : Nat) (f : Flight) (held : HeldLock), w.flights[id]? = some f → f.lock = some held →
    ∃ lease, w.locks.backing.lookup (w.lockKey f) = some lease ∧
      lease.owner = held.owner ∧ w.now < lease.expires

/-- Under exclusive locks and punctual heartbeats, every execution is on record with its lock. -/
theorem recorded_of_exclusive (h : w.outline.Exclusive own lockPrefix) (hpunctual : w.Punctual) :
    w.Recorded := by
  intro id f held hf hheld
  have hkept := h.leased.kept id f held hf hheld
  have hrecorded := hkept.recorded
  rw [hkept.key] at hrecorded
  exact ⟨_, hrecorded, rfl, hpunctual id f held hf hheld⟩

/-- Releases go on being carried out. -/
theorem onRelease_act (h : w.locks.onRelease = []) : (w.act a).locks.onRelease = [] := by
  have hlocks := (step_act a w).locks
  rcases hlocks with heq | ⟨r, -, heq⟩
  · exact (congrArg Lock.Faulty.onRelease heq).trans h
  · rw [show (w.act a).locks = _ from heq]
    exact Lock.Faulty.onRelease_serve h w.now r

/-- A lock that is released while a flight holds it as the same owner is not recorded any more. -/
theorem not_recorded_of_not_spares (h : w.outline.Exclusive own lockPrefix)
    (hreleases : w.locks.onRelease = []) (hspares : ¬a.Spares w) : ¬(w.act a).Recorded := by
  rw [Act.Spares, Outline.Spared.eq_def] at hspares
  split at hspares
  -- only a release can take a lock away
  case h_2 => exact absurd trivial hspares
  case h_1 index =>
    simp only [not_forall, ne_eq, not_not] at hspares
    obtain ⟨left, hleft, id, f, held, hf, hheld, hkey, howner⟩ := hspares
    have hkept := h.leased.kept id f held hf hheld
    have hreleased := Lock.Faulty.serve_release h.leased.sound hreleases w.now left.key left.owner
    have hact : w.act (.move (.release index)) =
        ({ w with releases := w.releases.eraseIdx index }.askLock left.agent
          (.release left.key left.owner)).2 := by
      have hleft' : w.releases[index]? = some left := hleft
      simp only [act, step, releaseAbandoned, hleft']
    intro hrecorded'
    rw [hact] at hrecorded'
    obtain ⟨lease, hlease, -⟩ := hrecorded' id f held hf hheld
    have hfound : (w.locks.serve w.now (.release left.key left.owner)).2.backing.lookup
        (w.lockKey f) = some lease := hlease
    have hnone := hreleased.own hkept.isOpen _ (hkey ▸ hkept.recorded) howner
    rw [show w.lockKey f = left.key from hkept.key.symm.trans hkey] at hfound
    cases hfound.symm.trans hnone

/-- A run keeps the locks of all flights recorded exactly if it releases no abandoned lock that a
flight holds as the same owner. -/
theorem recorded_iff_spares (h : w.outline.Exclusive own lockPrefix) (hown : Distinct own)
    (hreleases : w.locks.onRelease = []) (hpunctual : w.Always Punctual acts) :
    w.Always Recorded acts ↔ w.Each Act.Spares acts := by
  induction acts generalizing w with
  | nil => exact iff_of_true (recorded_of_exclusive h hpunctual) trivial
  | cons a acts ih =>
    have hrecorded : w.Recorded := recorded_of_exclusive h hpunctual.1
    by_cases hspares : a.Spares w
    · have hrest := ih (exclusive_act h hown hpunctual.1 hspares) (onRelease_act hreleases)
        hpunctual.2
      exact and_congr (iff_of_true hrecorded hspares) hrest
    · -- the first release of this kind
      refine iff_of_false (fun halways => ?_) fun heach => hspares heach.1
      exact not_recorded_of_not_spares h hreleases hspares halways.2.head

end World

namespace Fleet

variable {plans : List NodePlan} {locks : Lock.Faulty} {lockPrefix : String} {fleet : Fleet}
  {acts : List Act}

/-- In a fleet whose nodes share their agents and name the lock of an agent alike, and have no valid
identity in common, of which there may be only one, the lock service records the locks of all
flights throughout a run in which their leases stay in force exactly if no abandoned lock is
released in it while a flight holds it as the same owner. -/
theorem always_recorded_iff (hnew : new? plans locks = some fleet)
    (hshared : ∀ plan ∈ plans, plan.probes.isSome)
    (hnamed : ∀ plan ∈ plans, plan.cluster.lockPrefix = lockPrefix) (hapart : Apart plans)
    (hsound : locks.backing.Sound) (hreleases : locks.onRelease = [])
    (hpunctual : fleet.world.Always World.Punctual acts) :
    fleet.world.Always World.Recorded acts ↔ fleet.world.Each Act.Spares acts := by
  have hlocks : fleet.world.locks = locks := by
    obtain ⟨nodes, -, rfl⟩ := Option.map_eq_some_iff.1 hnew
    rfl
  exact World.recorded_iff_spares (exclusive_new hnew hshared hnamed hsound) hapart.distinct
    (hlocks ▸ hreleases) hpunctual

/-- A node with one address. -/
def oneNode : List NodePlan :=
  [{ name := "a", settings := .default .one, process := "1"
     probes := some [⟨some "10.0.0.1", 0⟩] }]

/-- A flight is abandoned while it executes, and another one of the node takes its place. -/
def replacement : List Act :=
  .start "a" "agent" {} :: List.replicate 11 (.move (.resume 0)) ++
    .move (.abandon 0) :: .start "a" "agent" {} :: List.replicate 5 (.move (.resume 1))

/-- On one node, with all heartbeats on time, the release of an abandoned lock takes the lock from
the flight that executes the agent by then. -/
theorem abandonedRelease_takes_lock :
    ∃ fleet, new? oneNode { backing := .memory ∅ } = some fleet ∧
      fleet.world.Always World.Punctual (replacement ++ [.move (.release 0)]) ∧
      ((fleet.world.run replacement).flights[1]?.bind (·.execution)).isSome = true ∧
      (fleet.world.run replacement).locks.backing.ownerOf 0 "agent-lock:agent" =
        some "10.0.0.1:1" ∧
      ((fleet.world.run (replacement ++ [.move (.release 0)])).flights[1]?.bind
        (·.execution)).isSome = true ∧
      (fleet.world.run (replacement ++ [.move (.release 0)])).locks.backing.ownerOf 0
        "agent-lock:agent" = none :=
  ⟨_, rfl, by decide +kernel, by decide +kernel, by decide +kernel, by decide +kernel,
    by decide +kernel⟩

/-- The abandoned lock is released before the other flight takes its place. -/
def succession : List Act :=
  .start "a" "agent" {} :: List.replicate 11 (.move (.resume 0)) ++
    .move (.abandon 0) :: .move (.release 0) :: .start "a" "agent" {} ::
      List.replicate 5 (.move (.resume 1))

/-- In the succession the second flight executes, and every execution is on record. -/
theorem always_recorded_succession :
    ∃ fleet, new? oneNode { backing := .memory ∅ } = some fleet ∧
      ((fleet.world.run succession).flights[1]?.bind (·.execution)).isSome = true ∧
      fleet.world.Always World.Recorded succession := by
  have hnew : new? oneNode { backing := .memory ∅ } = some _ := rfl
  have hapart : Apart oneNode := by
    intro plan hplan other hother hne
    have hsame : ∀ plan ∈ oneNode, ∀ other ∈ oneNode, plan.name = other.name := by decide
    exact absurd (hsame plan hplan other hother) hne
  have hnamed : ∀ plan ∈ oneNode, plan.cluster.lockPrefix = "agent-lock:" := by decide
  have hiff := always_recorded_iff hnew (by decide) hnamed hapart trivial rfl
    (show World.Always World.Punctual succession _ by decide +kernel)
  exact ⟨_, hnew, by decide +kernel, hiff.2 (by decide +kernel)⟩

end Fleet

end Cluster

end EntityCache
