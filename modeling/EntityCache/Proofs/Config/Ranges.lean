import EntityCache.Config.Decoding

/-!
# The range of settings

The numbers of settings have 64, 32 or 16 bits.  Whatever tree a configuration is read from, its
numbers are in the range of their settings (`Config.inRange_of_ofSetting?`): a field has what has
been read there, which is checked, or its default.
-/

namespace EntityCache

open Setting

/-! ## Numbers in range -/

/-- The numbers of a scheduler are in range. -/
def SchedulerSettings.InRange (s : SchedulerSettings) : Prop :=
  s.interval ≤ largest64 ∧ s.maxConcurrency ≤ largest64

/-- The numbers of a shared scheduler are in range. -/
def ClusterSettings.InRange (s : ClusterSettings) : Prop :=
  s.lockLifetime ≤ largest64 ∧ ∀ n ∈ s.heartbeat, n ≤ largest64

/-- The numbers of the search for an address are in range. -/
def IdentitySettings.InRange (s : IdentitySettings) : Prop :=
  s.validationPort ≤ largest16 ∧ s.probeTimeout ≤ largest64 ∧ s.refreshSeconds ≤ largest64

/-- The numbers of the store are in range. -/
def StoreSettings.InRange (s : StoreSettings) : Prop :=
  s.maxConnections ≤ largest32 ∧ s.busyTimeout ≤ largest64

/-- The number of the log is in range. -/
def LoggingSettings.InRange (s : LoggingSettings) : Prop := s.retentionDays ≤ largest32

/-- All numbers of a configuration are in the range of their settings. -/
structure Config.InRange (c : Config) : Prop where
  scheduler : c.scheduler.InRange
  cluster : c.cluster.InRange
  identity : c.identity.InRange
  store : c.store.InRange
  logging : c.logging.InRange

/-! ## Reading numbers -/

section Reading

variable {α : Type} {processors : Processors} {part : Section} {name : String} {r : Reading}
  {s : Setting} {largest : Nat}

/-- A field is what its reader takes or its default. -/
theorem Setting.Section.forall_of_get? {default value : α} {read : Setting → Option α}
    {p : α → Prop} (hread : ∀ s value, read s = some value → p value)
    (h : part.get? name default read = some value) (hdefault : p default) : p value := by
  rw [get?] at h
  split at h
  case h_1 s _ => exact hread s value h
  case h_2 => exact Option.some.inj h ▸ hdefault

/-- A natural number that is read is in range. -/
theorem Setting.le_of_natural? (s : Setting) (n : Nat) (h : natural? largest s = some n) :
    n ≤ largest := by
  cases s with
  | integer i =>
    rw [natural?] at h
    split at h
    case isTrue hrange =>
      obtain rfl := Option.some.inj h
      omega
    case isFalse => cases h
  | _ => cases h

/-- A natural number that may be missing is in range if it is there. -/
theorem Setting.le_of_optional? (s : Setting) (value : Option Nat)
    (h : optional? (natural? largest) s = some value) : ∀ n ∈ value, n ≤ largest := by
  cases s with
  | null =>
    obtain rfl := Option.some.inj h
    nofun
  | integer i =>
    obtain ⟨n, hn, rfl⟩ := Option.map_eq_some_iff.1 h
    rintro _ ⟨⟩
    exact le_of_natural? _ _ hn
  | _ => cases h

/-- A field is in range if its default is. -/
theorem Setting.Section.le_of_get? {default n : Nat}
    (h : part.get? name default (natural? largest) = some n) (hdefault : default ≤ largest) :
    n ≤ largest :=
  forall_of_get? (p := (· ≤ largest)) le_of_natural? h hdefault

/-- A field that may be missing is in range if it is there. -/
theorem Setting.Section.le_of_get?_optional {value : Option Nat}
    (h : part.get? name none (optional? (natural? largest)) = some value) :
    ∀ n ∈ value, n ≤ largest :=
  forall_of_get? (p := fun value => ∀ n ∈ value, n ≤ largest) le_of_optional? h nofun

/-- The defaults are in range on every machine. -/
theorem SchedulerSettings.inRange_default (processors : Processors) :
    (default processors).InRange :=
  ⟨show 60000 ≤ largest64 by decide, processors.count_le⟩

/-- Settings of a scheduler that are read are in range. -/
theorem SchedulerSettings.inRange_of_ofSetting? (s : Setting) (x : SchedulerSettings)
    (h : ofSetting? processors r s = some x) : x.InRange := by
  simp only [ofSetting?, Option.pure_def, Option.bind_eq_bind, Option.bind_eq_some_iff,
    Option.some.injEq] at h
  obtain ⟨part, -, interval, hinterval, maxConcurrency, hmax, overlap, -, rfl⟩ := h
  exact ⟨Section.le_of_get? hinterval (inRange_default processors).1,
    Section.le_of_get? hmax processors.count_le⟩

/-- Settings of a cluster that are read are in range. -/
theorem ClusterSettings.inRange_of_ofSetting? (s : Setting) (x : ClusterSettings)
    (h : ofSetting? r s = some x) : x.InRange := by
  simp only [ofSetting?, Option.pure_def, Option.bind_eq_bind, Option.bind_eq_some_iff,
    Option.some.injEq] at h
  obtain ⟨part, -, lockLifetime, hlifetime, heartbeat, hheartbeat, lockPrefix, -, rfl⟩ := h
  exact ⟨Section.le_of_get? hlifetime (by decide),
    Section.le_of_get?_optional hheartbeat⟩

/-- Settings of an identity that are read are in range. -/
theorem IdentitySettings.inRange_of_ofSetting? (s : Setting) (x : IdentitySettings)
    (h : ofSetting? r s = some x) : x.InRange := by
  simp only [ofSetting?, Option.pure_def, Option.bind_eq_bind, Option.bind_eq_some_iff,
    Option.some.injEq] at h
  obtain ⟨part, -, host, -, port, hport, probeTimeout, htimeout, refreshSeconds, hrefresh, rfl⟩ := h
  exact ⟨Section.le_of_get? hport (by decide),
    Section.le_of_get? htimeout (by decide),
    Section.le_of_get? hrefresh (by decide)⟩

/-- Settings of a store that are read are in range. -/
theorem StoreSettings.inRange_of_ofSetting? (s : Setting) (x : StoreSettings)
    (h : ofSetting? r s = some x) : x.InRange := by
  simp only [ofSetting?, Option.pure_def, Option.bind_eq_bind, Option.bind_eq_some_iff,
    Option.some.injEq] at h
  obtain ⟨part, -, kind, -, path, -, maxConnections, hmax, busyTimeout, hbusy, rfl⟩ := h
  exact ⟨Section.le_of_get? hmax (by decide),
    Section.le_of_get? hbusy (by decide)⟩

/-- Settings of a log that are read are in range. -/
theorem LoggingSettings.inRange_of_ofSetting? (s : Setting) (x : LoggingSettings)
    (h : ofSetting? r s = some x) : x.InRange := by
  simp only [ofSetting?, Option.pure_def, Option.bind_eq_bind, Option.bind_eq_some_iff,
    Option.some.injEq] at h
  obtain ⟨part, -, level, -, format, -, directory, -, retentionDays, hdays, rfl⟩ := h
  exact Section.le_of_get? hdays (by decide)

end Reading

namespace Config

/-- The defaults are in range on every machine. -/
theorem inRange_default (processors : Processors) : (default processors).InRange where
  scheduler := SchedulerSettings.inRange_default processors
  cluster := show ({} : ClusterSettings).InRange from ⟨by decide, nofun⟩
  identity := show ({} : IdentitySettings).InRange from ⟨by decide, by decide, by decide⟩
  store := show ({} : StoreSettings).InRange from ⟨by decide, by decide⟩
  logging := show 30 ≤ largest32 by decide

/-- A configuration that has been read is in range. -/
theorem inRange_of_ofSetting? {processors : Processors} {r : Reading} {s : Setting} {c : Config}
    (h : ofSetting? processors r s = some c) : c.InRange := by
  simp only [ofSetting?, Option.pure_def, Option.bind_eq_bind, Option.bind_eq_some_iff,
    Option.some.injEq] at h
  obtain ⟨part, -, cache, -, scheduler, hscheduler, cluster, hcluster, identity, hidentity, store,
    hstore, logging, hlogging, rfl⟩ := h
  obtain ⟨hscheduler', hcluster', hidentity', hstore', hlogging'⟩ := inRange_default processors
  exact ⟨Section.forall_of_get? SchedulerSettings.inRange_of_ofSetting? hscheduler hscheduler',
    Section.forall_of_get? ClusterSettings.inRange_of_ofSetting? hcluster hcluster',
    Section.forall_of_get? IdentitySettings.inRange_of_ofSetting? hidentity hidentity',
    Section.forall_of_get? StoreSettings.inRange_of_ofSetting? hstore hstore',
    Section.forall_of_get? LoggingSettings.inRange_of_ofSetting? hlogging hlogging'⟩

end Config

end EntityCache
