import EntityCache.Config.Decoding
import EntityCache.Proofs.Setting.Overlay

/-!
# The fields of the configuration

Every section reads its fields one by one from a tree of settings.  A `Field` says where a tree sets
it, how it is read there and what it is in the end, so that all sections, and the configuration made
of them, are read in the same way: a field has what the tree gives it, and it has its default where
the tree gives it nothing (`Config.value?_of_ofSetting?`).  The fields are the whole configuration
(`Config.eq_of_fields`).
-/

namespace EntityCache

open Setting

/-! ## Fields -/

/-- A field of settings: the place where a tree sets it, how it is read there, and its value. -/
structure Field (α : Type) where
  Value : Type
  path : List String
  read : Setting → Option Value
  value : α → Value

namespace Field

variable {α β : Type}

/-- What a tree gives a field: what is read at its place, or the default if nothing stands there. -/
def value? (f : Field α) (default : α) (s : Setting) : Option f.Value :=
  (s.at? f.path).elim (some (f.value default)) f.read

/-- A field of a part as a field of the whole. -/
def within (part : String) (get : β → α) (f : Field α) : Field β :=
  ⟨f.Value, part :: f.path, f.read, f.value ∘ get⟩

/-- What sources set a field to, in their order. -/
def settings (f : Field α) (sources : List Setting) : List Setting :=
  sources.filterMap (at? f.path)

/-- What is read in a section of fields is what the tree gives them. -/
theorem value?_single {name : String} (Value : Type) (read : Setting → Option Value)
    (value : α → Value) (default : α) (fs : List (String × Setting)) :
    value? ⟨Value, [name], read, value⟩ default (.map fs) =
      Section.get? (fun name => fs.lookup name) name (value default) read := by
  rw [value?, at?, Section.get?]
  cases fs.lookup name <;> rfl

end Field

/-- The field of the cache settings. -/
def CacheSettings.fields : List (Field CacheSettings) := [⟨_, ["prefix"], text?, (·.keyPrefix)⟩]

/-- The fields of the settings of a scheduler. -/
def SchedulerSettings.fields : List (Field SchedulerSettings) :=
  [⟨_, ["interval_ms"], natural? largest64, (·.interval)⟩,
    ⟨_, ["max_concurrency"], natural? largest64, (·.maxConcurrency)⟩,
    ⟨_, ["overlap_policy"], choice? .lenient [.allow, .skip] OverlapPolicy.name, (·.overlap)⟩]

/-- The fields of the settings of a shared scheduler. -/
def ClusterSettings.fields : List (Field ClusterSettings) :=
  [⟨_, ["lock_ttl_ms"], natural? largest64, (·.lockLifetime)⟩,
    ⟨_, ["heartbeat_interval_ms"], optional? (natural? largest64), (·.heartbeat)⟩,
    ⟨_, ["lock_prefix"], text?, (·.lockPrefix)⟩]

/-- The fields of the settings of the search for a node's address. -/
def IdentitySettings.fields : List (Field IdentitySettings) :=
  [⟨_, ["validation_host"], text?, (·.validationHost)⟩,
    ⟨_, ["validation_port"], natural? largest16, (·.validationPort)⟩,
    ⟨_, ["probe_timeout_ms"], natural? largest64, (·.probeTimeout)⟩,
    ⟨_, ["refresh_interval_secs"], natural? largest64, (·.refreshSeconds)⟩]

/-- The fields of the settings of the store. -/
def StoreSettings.fields : List (Field StoreSettings) :=
  [⟨_, ["backend"], choice? .lenient [.memory, .database] StoreKind.name, (·.kind)⟩,
    ⟨_, ["database_path"], text?, (·.databasePath)⟩,
    ⟨_, ["max_connections"], natural? largest32, (·.maxConnections)⟩,
    ⟨_, ["busy_timeout_ms"], natural? largest64, (·.busyTimeout)⟩]

/-- The fields of the settings of the log. -/
def LoggingSettings.fields : List (Field LoggingSettings) :=
  [⟨_, ["level"], text?, (·.level)⟩,
    ⟨_, ["format"], text?, (·.format)⟩,
    ⟨_, ["log_dir"], optional? text?, (·.directory)⟩,
    ⟨_, ["retention_days"], natural? largest32, (·.retentionDays)⟩]

/-! ## Reading the fields -/

section Reading

variable {fs : List (String × Setting)} {processors : Processors}

/-- A lenient reading of a map has the fields of the map, whatever their names. -/
theorem section?_lenient_map (names : List String) : section? .lenient names (.map fs) =
    some fun name => fs.lookup name := rfl

/-- Each field of the settings read is what the map says of it, or its default. -/
theorem CacheSettings.value?_of_ofSetting? {x : CacheSettings}
    (h : ofSetting? .lenient (.map fs) = some x) :
    ∀ f ∈ fields, f.value? {} (.map fs) = some (f.value x) := by
  simp only [ofSetting?, section?_lenient_map, Option.pure_def, Option.bind_eq_bind,
    Option.bind_some, Option.bind_eq_some_iff, Option.some.injEq] at h
  obtain ⟨keyPrefix, hprefix, rfl⟩ := h
  simp [fields, Field.value?_single, hprefix]

/-- Each field of the settings read is what the map says of it, or its default on this machine. -/
theorem SchedulerSettings.value?_of_ofSetting? {x : SchedulerSettings}
    (h : ofSetting? processors .lenient (.map fs) = some x) :
    ∀ f ∈ fields, f.value? (.default processors) (.map fs) = some (f.value x) := by
  simp only [ofSetting?, section?_lenient_map, Option.pure_def, Option.bind_eq_bind,
    Option.bind_some, Option.bind_eq_some_iff, Option.some.injEq] at h
  obtain ⟨interval, hinterval, maxConcurrency, hmax, overlap, hoverlap, rfl⟩ := h
  simp [fields, Field.value?_single, hinterval, hmax, hoverlap]

/-- Each field of the settings read is what the map says of it, or its default. -/
theorem ClusterSettings.value?_of_ofSetting? {x : ClusterSettings}
    (h : ofSetting? .lenient (.map fs) = some x) :
    ∀ f ∈ fields, f.value? {} (.map fs) = some (f.value x) := by
  simp only [ofSetting?, section?_lenient_map, Option.pure_def, Option.bind_eq_bind,
    Option.bind_some, Option.bind_eq_some_iff, Option.some.injEq] at h
  obtain ⟨lockLifetime, hlifetime, heartbeat, hheartbeat, lockPrefix, hprefix, rfl⟩ := h
  simp [fields, Field.value?_single, hlifetime, hheartbeat, hprefix]

/-- Each field of the settings read is what the map says of it, or its default. -/
theorem IdentitySettings.value?_of_ofSetting? {x : IdentitySettings}
    (h : ofSetting? .lenient (.map fs) = some x) :
    ∀ f ∈ fields, f.value? {} (.map fs) = some (f.value x) := by
  simp only [ofSetting?, section?_lenient_map, Option.pure_def, Option.bind_eq_bind,
    Option.bind_some, Option.bind_eq_some_iff, Option.some.injEq] at h
  obtain ⟨validationHost, hhost, validationPort, hport, probeTimeout, htimeout, refreshSeconds,
    hrefresh, rfl⟩ := h
  simp [fields, Field.value?_single, hhost, hport, htimeout, hrefresh]

/-- Each field of the settings read is what the map says of it, or its default. -/
theorem StoreSettings.value?_of_ofSetting? {x : StoreSettings}
    (h : ofSetting? .lenient (.map fs) = some x) :
    ∀ f ∈ fields, f.value? {} (.map fs) = some (f.value x) := by
  simp only [ofSetting?, section?_lenient_map, Option.pure_def, Option.bind_eq_bind,
    Option.bind_some, Option.bind_eq_some_iff, Option.some.injEq] at h
  obtain ⟨kind, hkind, databasePath, hpath, maxConnections, hmax, busyTimeout, hbusy, rfl⟩ := h
  simp [fields, Field.value?_single, hkind, hpath, hmax, hbusy]

/-- Each field of the settings read is what the map says of it, or its default. -/
theorem LoggingSettings.value?_of_ofSetting? {x : LoggingSettings}
    (h : ofSetting? .lenient (.map fs) = some x) :
    ∀ f ∈ fields, f.value? {} (.map fs) = some (f.value x) := by
  simp only [ofSetting?, section?_lenient_map, Option.pure_def, Option.bind_eq_bind,
    Option.bind_some, Option.bind_eq_some_iff, Option.some.injEq] at h
  obtain ⟨level, hlevel, format, hformat, directory, hdirectory, retentionDays, hdays, rfl⟩ := h
  simp [fields, Field.value?_single, hlevel, hformat, hdirectory, hdays]

/-- What a part gives its fields the whole gives them. -/
theorem Field.value?_within {α β : Type} {part : String} {get : β → α} {default : β} {x : β}
    {fields : List (Field α)} {read : Setting → Option α}
    (hpart : Section.get? (fun name => fs.lookup name) part (get default) read = some (get x))
    (hmap : ∀ s, fs.lookup part = some s → s.IsMap)
    (hread : ∀ gs y, read (.map gs) = some y →
      ∀ f ∈ fields, f.value? (get default) (.map gs) = some (f.value y)) :
    ∀ f ∈ fields.map (within part get), f.value? default (.map fs) = some (f.value x) := by
  intro field hfield
  obtain ⟨f, hf, rfl⟩ := List.mem_map.1 hfield
  rw [Section.get?] at hpart
  rw [value?, within, at?]
  -- without the section the default of the whole decides, with it the reading of its map
  cases hs : fs.lookup part with
  | none =>
    rw [hs] at hpart
    exact congrArg (some ∘ f.value) (Option.some.inj hpart)
  | some s =>
    obtain ⟨gs, rfl⟩ := hmap s hs
    rw [hs] at hpart
    exact hread gs (get x) hpart f hf

end Reading

namespace Config

/-- The sections of the configuration. -/
def parts : List String := ["cache", "scheduler", "cluster", "identity", "store", "logging"]

/-- The fields of the configuration. -/
def fields : List (Field Config) :=
  CacheSettings.fields.map (.within "cache" cache) ++
  SchedulerSettings.fields.map (.within "scheduler" scheduler) ++
  ClusterSettings.fields.map (.within "cluster" cluster) ++
  IdentitySettings.fields.map (.within "identity" identity) ++
  StoreSettings.fields.map (.within "store" store) ++
  LoggingSettings.fields.map (.within "logging" logging)

/-- The fields are the whole configuration. -/
theorem eq_of_fields {c c' : Config} (h : ∀ f ∈ fields, f.value c = f.value c') : c = c' := by
  obtain ⟨⟨_⟩, ⟨_, _, _⟩, ⟨_, _, _⟩, ⟨_, _, _, _⟩, ⟨_, _, _, _⟩, ⟨_, _, _, _⟩⟩ := c
  obtain ⟨⟨_⟩, ⟨_, _, _⟩, ⟨_, _, _⟩, ⟨_, _, _, _⟩, ⟨_, _, _, _⟩, ⟨_, _, _, _⟩⟩ := c'
  simpa [fields, CacheSettings.fields, SchedulerSettings.fields, ClusterSettings.fields,
    IdentitySettings.fields, StoreSettings.fields, LoggingSettings.fields, Field.within,
    and_assoc] using h

/-- What is read from a map of sections has in every field what the map gives the field. -/
theorem value?_of_ofSetting? {processors : Processors} {fs : List (String × Setting)} {c : Config}
    (h : ofSetting? processors .lenient (.map fs) = some c)
    (hmaps : ∀ part ∈ parts, ∀ s, fs.lookup part = some s → s.IsMap) :
    ∀ f ∈ fields, f.value? (.default processors) (.map fs) = some (f.value c) := by
  simp only [parts, List.forall_mem_cons] at hmaps
  obtain ⟨hcache, hscheduler, hcluster, hidentity, hstore, hlogging, -⟩ := hmaps
  simp only [ofSetting?, section?_lenient_map, Option.pure_def, Option.bind_eq_bind,
    Option.bind_some, Option.bind_eq_some_iff, Option.some.injEq] at h
  obtain ⟨cache, hcache', scheduler, hscheduler', cluster, hcluster', identity, hidentity', store,
    hstore', logging, hlogging', rfl⟩ := h
  -- the fields are those of the sections, one after the other
  simp only [fields, List.forall_mem_append]
  refine ⟨⟨⟨⟨⟨?_, ?_⟩, ?_⟩, ?_⟩, ?_⟩, ?_⟩
  · exact Field.value?_within hcache' hcache fun gs x => CacheSettings.value?_of_ofSetting?
  · exact Field.value?_within hscheduler' hscheduler fun gs x =>
      SchedulerSettings.value?_of_ofSetting?
  · exact Field.value?_within hcluster' hcluster fun gs x => ClusterSettings.value?_of_ofSetting?
  · exact Field.value?_within hidentity' hidentity fun gs x => IdentitySettings.value?_of_ofSetting?
  · exact Field.value?_within hstore' hstore fun gs x => StoreSettings.value?_of_ofSetting?
  · exact Field.value?_within hlogging' hlogging fun gs x => LoggingSettings.value?_of_ofSetting?

end Config

end EntityCache
