import EntityCache.Cluster.Fleet
import EntityCache.Proofs.Config.Ranges
import EntityCache.Proofs.Config.Validation
import EntityCache.Proofs.Lock.Timed

/-!
# What an accepted configuration is good for

Schedulers should be made from every accepted configuration, and the lifetime of its locks should be
one that the clocks of a machine can reckon with (`Config.WorksAt`).  This holds exactly if the
configuration asks for no more permits than there can be, and at every instant that has one a
lifetime later (`worksAt_iff`).  The first is no rule of acceptance (`not_always_works`).  The
second fails only at instants that are nearer to the last one than the largest number of
milliseconds that a setting can hold, which is half a billion years; a clock that counts from the
start of its machine shows none of them.
-/

namespace EntityCache

open Cluster Lock Schedule

/-- Nodes are made as the settings of their schedulers say, whether they keep their agents to
themselves or share them, and there is time between their firings. -/
def SchedulerSettings.MakesNodes (s : SchedulerSettings) : Prop :=
  ∀ plan : NodePlan, plan.settings = s → ∃ node, Fleet.node? plan = some node ∧
    node.runner.capacity = s.maxConcurrency ∧ node.runner.interval = s.interval ∧
    0 < node.runner.interval

/-- There is always some time between two heartbeats. -/
theorem ClusterSettings.heartbeatInterval_pos (s : ClusterSettings) : 0 < s.heartbeatInterval :=
  Nat.lt_of_lt_of_le Nat.zero_lt_one (Nat.le_max_right _ 1)

namespace Config

variable {c : Config}

/-- Schedulers can be made from a configuration, and locks can be acquired and extended for the
lifetime that it sets, in memory at an instant and in a database at a moment of the calendar. -/
structure WorksAt (c : Config) (now : Instant) (moment : Int64) : Prop where
  nodes : c.scheduler.MakesNodes
  heartbeat : 0 < c.cluster.heartbeatInterval
  /-- A service in memory does not break off, whatever locks it has granted. -/
  memory : ∀ (leases : TimedLeases) (key owner : String),
    (leases.answer? now (.acquire key owner c.cluster.lockLifetime)).isSome ∧
    (leases.answer? now (.heartbeat key owner c.cluster.lockLifetime)).isSome
  /-- What a database records is the moment of expiry, cut off at the largest number. -/
  database : (Rows.expiryAt moment (.ofMilliseconds c.cluster.lockLifetime)).toInt =
    min (moment.toInt + min c.cluster.lockLifetime Rows.latest) Rows.latest

/-- A runner with more permits than there can be is not made. -/
theorem le_permitLimit_of_makesNodes {s : SchedulerSettings} (h : s.MakesNodes) :
    s.maxConcurrency ≤ Runner.permitLimit := by
  obtain ⟨node, hnode, -⟩ := h { name := "", settings := s } rfl
  obtain ⟨runner, hrunner, -⟩ := Option.map_eq_some_iff.1 hnode
  rw [Runner.new?] at hrunner
  split at hrunner
  case isTrue hle => exact (Nat.le_max_left _ 1).trans hle
  case isFalse => cases hrunner

/-- With accepted settings nothing else stands in the way. -/
theorem makesNodes_iff (haccepted : c.validate = .ok ()) :
    c.scheduler.MakesNodes ↔ c.scheduler.maxConcurrency ≤ Runner.permitLimit := by
  refine ⟨le_permitLimit_of_makesNodes, fun hle plan hplan => ?_⟩
  have hinterval := interval_pos haccepted
  have hpermits : Runner.permits c.scheduler = c.scheduler.maxConcurrency :=
    Nat.max_eq_left (maxConcurrency_pos haccepted)
  rw [Fleet.node?, hplan, Runner.new?, if_pos (hpermits.trans_le hle), hpermits,
    Nat.max_eq_left hinterval]
  exact ⟨_, rfl, rfl, rfl, hinterval⟩

/-- With the settings of an accepted configuration, schedulers of either kind can be made, their
firings and heartbeats are some time apart, and locks can be acquired and extended on either kind of
lock service, if and only if the configuration asks for no more permits than there can be and there
is an instant one lifetime from now.  There is one if as much time is left as any setting can
hold. -/
theorem worksAt_iff (hrange : c.InRange) (haccepted : c.validate = .ok ()) (now : Instant)
    (moment : Int64) :
    (c.WorksAt now moment ↔ c.scheduler.maxConcurrency ≤ Runner.permitLimit ∧
      now.HasRoom c.cluster.lockLifetime) ∧
    (now.HasRoom largest64 →
      (c.WorksAt now moment ↔ c.scheduler.maxConcurrency ≤ Runner.permitLimit)) := by
  have hiff : c.WorksAt now moment ↔ c.scheduler.maxConcurrency ≤ Runner.permitLimit ∧
      now.HasRoom c.cluster.lockLifetime := by
    constructor
    · intro hworks
      exact ⟨le_permitLimit_of_makesNodes hworks.nodes,
        TimedLeases.isSome_answer?_acquire_empty.1 (hworks.memory ∅ "" "").1⟩
    · rintro ⟨hpermits, hroom⟩
      -- the one lifetime that both requests ask for
      have hlifetime : ∀ lifetime ∈ some c.cluster.lockLifetime, now.HasRoom lifetime := by
        rintro _ ⟨⟩
        exact hroom
      refine ⟨(makesNodes_iff haccepted).2 hpermits, c.cluster.heartbeatInterval_pos, ?_, ?_⟩
      · intro leases key owner
        exact ⟨TimedLeases.isSome_answer? hlifetime, TimedLeases.isSome_answer? hlifetime⟩
      · rw [Rows.toInt_expiryAt, Duration.toMilliseconds_ofMilliseconds]
  exact ⟨hiff, fun hroom => hiff.trans (and_iff_left (hroom.mono hrange.cluster.1))⟩

/-- As many permits as there can be, and locks that live as long as a setting can say. -/
theorem worksAt_iff_largest :
    let c : Config :=
      { scheduler := { maxConcurrency := Runner.permitLimit }
        cluster := { lockLifetime := largest64 } }
    let late : Instant := ⟨9000000000000000000, 0, by decide⟩
    c.InRange ∧ c.validate = .ok () ∧ late.HasRoom largest64 ∧ c.WorksAt late Int64.maxValue := by
  intro c late
  have hrange : c.InRange :=
    { inRange_default .one with
      scheduler := ⟨by decide, by decide⟩
      cluster := ⟨Nat.le_refl _, nofun⟩ }
  have haccepted : c.validate = .ok () := by decide
  have hroom : late.HasRoom largest64 := by
    rw [Instant.HasRoom]
    decide
  exact ⟨hrange, haccepted, hroom,
    ((worksAt_iff hrange haccepted late Int64.maxValue).2 hroom).2 (Nat.le_refl _)⟩

/-- One permit more is accepted, and no node can be made. -/
theorem not_always_works :
    ¬∀ (c : Config) (now : Instant) (moment : Int64), c.InRange → c.validate = .ok () →
      now.HasRoom largest64 → c.WorksAt now moment := by
  intro hworks
  let c : Config := { scheduler := { maxConcurrency := Runner.permitLimit + 1 } }
  have hrange : c.InRange := { inRange_default .one with scheduler := ⟨by decide, by decide⟩ }
  have hroom : (⟨0, 0, by decide⟩ : Instant).HasRoom largest64 := by
    rw [Instant.HasRoom]
    decide
  have hnodes := (hworks c _ 0 hrange (by decide) hroom).nodes
  exact Nat.not_succ_le_self _ (le_permitLimit_of_makesNodes hnodes)

end Config

end EntityCache
