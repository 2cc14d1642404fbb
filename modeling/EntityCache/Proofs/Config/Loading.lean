import EntityCache.Config.Loading
import EntityCache.Proofs.Config.Fields
import EntityCache.Proofs.Setting.Sources
import Mathlib

/-!
# Where a configuration has its values from

A configuration is loaded from two files and the environment, put over each other.  If they give its
sections as maps, every field has its value from the last of them that sets it, whatever the others
say and whatever else they set beside it, and its default on the machine at hand if none does
(`Layered`).

There is one exception.  The name of a choice may be given by a map from the name to nothing.  Two
such maps are joined like sections, so that not the last of the two names counts but the smaller
(`not_always_last`).
-/

namespace EntityCache

open Setting

namespace Config

/-! ## The sources of a field -/

/-- A source gives every section that it has as a map. -/
def GivesMaps (source : Setting) : Prop :=
  ∀ part ∈ parts, ∀ s, source.at? [part] = some s → s.IsMap

/-- The fields that name one of several choices. -/
def choices : List (List String) := [["scheduler", "overlap_policy"], ["store", "backend"]]

/-- The last two settings of a choice are maps from its name to nothing. -/
structure Merges (f : Field Config) (before : List Setting) (last : Setting) : Prop where
  choice : f.path ∈ choices
  last : last.IsMap
  previous : ∃ previous ∈ before.getLast?, previous.IsMap

/-- Where a field has its value from: it is the default if no source sets the field, and what the
last of them sets otherwise.  Where two maps come last, what is read is the map joined from them. -/
structure Layered (processors : Processors) (f : Field Config) (sources : List Setting)
    (c : Config) : Prop where
  default : f.settings sources = [] → f.value c = f.value (.default processors)
  last : ∀ before last, f.settings sources = before ++ [last] → ¬Merges f before last →
    f.read last = some (f.value c)
  merged : ∀ before last, f.settings sources = before ++ [last] → Merges f before last →
    ∃ s, joined (f.settings sources) = some s ∧ f.read s = some (f.value c)

/-- Each field is named within one of the sections. -/
theorem exists_path {f : Field Config} (hf : f ∈ fields) :
    ∃ part ∈ parts, ∃ name, f.path = [part, name] := by
  revert f
  simp [fields, parts, CacheSettings.fields, SchedulerSettings.fields, ClusterSettings.fields,
    IdentitySettings.fields, StoreSettings.fields, LoggingSettings.fields, Field.within]

/-- A map is not read as the value of a field, unless the field names a choice. -/
theorem read_map {f : Field Config} (hf : f ∈ fields) (hpath : f.path ∉ choices)
    (fs : List (String × Setting)) : f.read (.map fs) = none := by
  revert f
  simp [fields, choices, CacheSettings.fields, SchedulerSettings.fields, ClusterSettings.fields,
    IdentitySettings.fields, StoreSettings.fields, LoggingSettings.fields, Field.within, text?,
    natural?, optional?]

variable {processors : Processors} {sources : List Setting} {c : Config}

/-- A source that gives maps for the sections is a map all the way to a field. -/
theorem GivesMaps.mapsAlong {source : Setting} (h : GivesMaps source) (hmap : source.IsMap)
    {part : String} (hpart : part ∈ parts) (name : String) : source.MapsAlong [part, name] := by
  obtain ⟨fs, rfl⟩ := hmap
  intro s hs
  have hat : (Setting.map fs).at? [part] = some s := by rw [at?, hs]; rfl
  obtain ⟨gs, rfl⟩ := h part hpart s hat
  exact fun _ _ => trivial

/-- Sections that are maps in every source are maps in the end. -/
theorem givesMaps_overlayAll (hsources : ∀ source ∈ sources, source.Ordered ∧ source.IsMap)
    (hmaps : ∀ source ∈ sources, GivesMaps source) : GivesMaps (overlayAll sources) := by
  intro part hpart s hs
  have halong : ∀ source ∈ sources, source.MapsAlong [part] ∧ source.Ordered := by
    intro source hsource
    obtain ⟨hordered, fs, rfl⟩ := hsources source hsource
    exact ⟨fun _ _ => trivial, hordered⟩
  rw [at?_overlayAll halong] at hs
  rcases List.eq_nil_or_concat (sources.filterMap (at? [part])) with hnil | ⟨before, last, hlast⟩
  · rw [hnil] at hs
    cases hs
  · rw [hlast, List.concat_eq_append] at hs
    have hmem : last ∈ sources.filterMap (at? [part]) := by simp [hlast]
    obtain ⟨source, hsource, hat⟩ := List.mem_filterMap.1 hmem
    obtain ⟨fs, hfs⟩ := exists_joined_of_isMap before (hmaps source hsource part hpart last hat)
    exact ⟨fs, Option.some.inj (hs.symm.trans hfs)⟩

/-- What is read from sources put over each other has its fields from the sources. -/
theorem layered_of_ofSetting? (hsources : ∀ source ∈ sources, source.Ordered ∧ source.IsMap)
    (hmaps : ∀ source ∈ sources, GivesMaps source)
    (h : ofSetting? processors .lenient (overlayAll sources) = some c) :
    ∀ f ∈ fields, Layered processors f sources c := by
  intro f hf
  obtain ⟨part, hpart, name, hpath⟩ := exists_path hf
  have hat : (overlayAll sources).at? f.path = joined (f.settings sources) := by
    rw [Field.settings, hpath]
    exact at?_overlayAll fun source hsource =>
      ⟨(hmaps source hsource).mapsAlong (hsources source hsource).2 hpart name,
        (hsources source hsource).1⟩
  -- one value is read from what all sources say together; the three cases are about that value
  have hvalue :
      (joined (f.settings sources)).elim (some (f.value (.default processors))) f.read =
        some (f.value c) := by
    have hgives := givesMaps_overlayAll hsources hmaps
    rw [← hat]
    obtain ⟨fs, hfs⟩ := (ordered_overlayAll hsources).2
    rw [hfs] at h hgives ⊢
    refine value?_of_ofSetting? h (fun part hpart s hs => hgives part hpart s ?_) f hf
    rw [at?, hs]
    rfl
  constructor
  · intro hnil
    rw [hnil] at hvalue
    exact (Option.some.inj hvalue).symm
  · intro before last hlast hmerges
    rw [hlast] at hvalue
    by_cases hboth : last.IsMap ∧ ∃ previous ∈ before.getLast?, previous.IsMap
    · -- only the name of a choice can be read from a map
      have hchoice : f.path ∉ choices := fun hchoice => hmerges ⟨hchoice, hboth.1, hboth.2⟩
      obtain ⟨fs, hfs⟩ := exists_joined_of_isMap before hboth.1
      rw [hfs, Option.elim_some, read_map hf hchoice] at hvalue
      cases hvalue
    · rw [joined_eq_last fun hmap previous hprevious hpreviousMap =>
        hboth ⟨hmap, previous, hprevious, hpreviousMap⟩] at hvalue
      exact hvalue
  · intro before last hlast hmerges
    obtain ⟨fs, hfs⟩ := exists_joined_of_isMap before hmerges.last
    rw [hlast, hfs] at hvalue
    exact ⟨.map fs, hlast ▸ hfs, hvalue⟩

/-- A list of sources that can all be read. -/
theorem eq_map_some_of_mapM {sources : List (Option Setting)} {trees : List Setting}
    (h : sources.mapM id = some trees) : sources = trees.map some := by
  induction sources generalizing trees with
  | nil => cases h; rfl
  | cons source sources ih =>
    rw [List.mapM_cons] at h
    obtain ⟨tree, htree, h⟩ := Option.bind_eq_some_iff.1 h
    obtain ⟨rest, hrest, h⟩ := Option.bind_eq_some_iff.1 h
    cases h
    rw [ih hrest, List.map_cons]
    exact congrArg (· :: _) htree

/-- A configuration is read from sources that can all be read, and it is valid. -/
theorem exists_of_ofSources {sources : List (Option Setting)}
    (h : ofSources processors sources = .ok c) :
    (∃ trees : List Setting, sources = trees.map some ∧
      ofSetting? processors .lenient (overlayAll trees) = some c) ∧ c.validate = .ok () := by
  rw [ofSources] at h
  split at h
  case h_1 => cases h
  case h_2 trees htrees =>
    split at h
    case h_1 => cases h
    case h_2 c' hc =>
      split at h
      case h_2 => cases h
      case h_1 hvalid =>
        cases h
        exact ⟨⟨trees, eq_map_some_of_mapM htrees, hc⟩, hvalid⟩

/-- What is parsed from a file is a map, in order at every level. -/
theorem ordered_of_source? {text : Option String} {source : Setting}
    (h : source? text = some source) : source.Ordered ∧ source.IsMap := by
  cases text with
  | none =>
    cases h
    exact ⟨ordered_empty, _, rfl⟩
  | some text => exact ordered_of_ofYaml? h

/-- Variables that hold no settings are as good as none. -/
theorem ofEnvironment_eq_empty {environment : List (String × String)}
    (h : ∀ entry ∈ environment, variablePath? entry.1 = none) :
    ofEnvironment environment = .map [] := by
  have hnone : environment.filterMap (fun x =>
      (variablePath? x.1).map fun path => nest path (ofInline x.2)) = [] := by
    rw [List.filterMap_eq_nil_iff]
    intro entry hentry
    rw [h entry hentry]
    rfl
  exact congrArg overlayAll hnone

/-- A file alone is loaded as it is beside nothing else. -/
theorem loadFile_eq_load (processors : Processors) (file : Option String)
    {environment : List (String × String)}
    (h : ∀ entry ∈ environment, variablePath? entry.1 = none) :
    loadFile processors file = load processors file none environment := by
  rw [loadFile, load, ofEnvironment_eq_empty h, source?]
  cases hsource : source? file with
  | none => rfl
  | some source =>
    obtain ⟨-, fs, rfl⟩ := ordered_of_source? hsource
    rfl

/-- What is loaded on a machine from two files and the environment is valid, and every field has its
value from the last of them that sets it, or its default there.  A file alone is loaded as it is
beside nothing else. -/
theorem load_layered (processors : Processors) :
    (∀ (node place : Option String) (environment : List (String × String)) (c : Config),
      load processors node place environment = .ok c →
      c.validate = .ok () ∧ ∃ sources : List Setting,
        [source? node, source? place, some (ofEnvironment environment)] = sources.map some ∧
        ((∀ source ∈ sources, GivesMaps source) → ∀ f ∈ fields, Layered processors f sources c)) ∧
    ∀ file : Option String, (∀ c, loadFile processors file = .ok c → c.validate = .ok ()) ∧
      ∀ environment : List (String × String),
        (∀ entry ∈ environment, variablePath? entry.1 = none) →
          loadFile processors file = load processors file none environment := by
  refine ⟨fun node place environment c h => ?_, fun file => ⟨fun c h =>
    (exists_of_ofSources h).2, fun environment h => loadFile_eq_load processors file h⟩⟩
  obtain ⟨⟨sources, hsources, hread⟩, hvalid⟩ := exists_of_ofSources h
  refine ⟨hvalid, sources, hsources, fun hmaps => layered_of_ofSetting? ?_ hmaps hread⟩
  intro source hsource
  have hmem : some source ∈ [source? node, source? place, some (ofEnvironment environment)] :=
    hsources ▸ List.mem_map_of_mem hsource
  simp only [List.mem_cons, Option.some.injEq, List.not_mem_nil, or_false] at hmem
  -- every source is in order: files by their parser, variables by the way they are put together
  rcases hmem with hnode | hplace | rfl
  · exact ordered_of_source? hnode.symm
  · exact ordered_of_source? hplace.symm
  · exact ordered_ofEnvironment environment

/-- A node that sets one field of a section. -/
def intervalText : String := "scheduler:\n  interval_ms: 5\n"

/-- A place that sets another one. -/
def concurrencyText : String := "scheduler:\n  max_concurrency: 2\n"

/-- A source without fields has no section to give anything else for. -/
theorem givesMaps_empty : GivesMaps (.map []) := by
  intro part hpart s hs
  cases hs

/-- A source that sets one field of the scheduler. -/
def schedulerSource (name : String) (value : Setting) : Setting :=
  .map [("scheduler", .map [(name, value)])]

/-- The source gives a map for its one section. -/
theorem givesMaps_schedulerSource (name : String) (value : Setting) :
    GivesMaps (schedulerSource name value) := by
  intro part hpart s hs
  rw [schedulerSource, at?, lookup_cons] at hs
  split at hs
  case isTrue =>
    cases hs
    exact ⟨_, rfl⟩
  case isFalse => cases hs

/-- A variable goes over the node, and leaves what the place says of the other field. -/
theorem load_layered_scheduler :
    (∃ (c : Config) (sources : List Setting),
      load .one (some intervalText) (some concurrencyText)
        [("FLEETCACHE_SCHEDULER__INTERVAL_MS", "7")] = .ok c ∧
      c.validate = .ok () ∧ c.scheduler = ⟨7, 2, .allow⟩ ∧
      [source? (some intervalText), source? (some concurrencyText),
        some (ofEnvironment [("FLEETCACHE_SCHEDULER__INTERVAL_MS", "7")])] = sources.map some ∧
      ∀ f ∈ fields, Layered .one f sources c) ∧
    loadFile .one (some intervalText) = load .one (some intervalText) none [("PATH", "/bin")] ∧
    ∃ c, loadFile .one (some intervalText) = .ok c ∧ c.validate = .ok () := by
  have hnode : source? (some intervalText) = some (schedulerSource "interval_ms" (.integer 5)) := by
    cbv
  have hplace : source? (some concurrencyText) =
      some (schedulerSource "max_concurrency" (.integer 2)) := by cbv
  have henvironment : ofEnvironment [("FLEETCACHE_SCHEDULER__INTERVAL_MS", "7")] =
      schedulerSource "interval_ms" (.integer 7) := by
    have hpath : variablePath? "FLEETCACHE_SCHEDULER__INTERVAL_MS" =
        some ["scheduler", "interval_ms"] := by decide +kernel
    have hvalue : ofInline "7" = .integer 7 := by rfl
    rw [ofEnvironment]
    simp only [List.filterMap_cons, List.filterMap_nil, hpath, hvalue, Option.map_some]
    rfl
  have hload : load .one (some intervalText) (some concurrencyText)
      [("FLEETCACHE_SCHEDULER__INTERVAL_MS", "7")] = .ok { scheduler := ⟨7, 2, .allow⟩ } := by
    rw [load, hnode, hplace, henvironment]
    rfl
  have hfile : loadFile .one (some intervalText) = .ok { scheduler := ⟨5, 1, .allow⟩ } := by
    rw [loadFile, hnode]
    rfl
  obtain ⟨hvalid, sources, hsources, hlayered⟩ := (load_layered .one).1 _ _ _ _ hload
  -- the sources are the three texts, so that each can be seen to give maps
  have hlist : sources = [schedulerSource "interval_ms" (.integer 5),
      schedulerSource "max_concurrency" (.integer 2),
      schedulerSource "interval_ms" (.integer 7)] := by
    refine (List.map_injective_iff.2 (fun _ _ => Option.some.inj) ?_).symm
    rw [← hsources, hnode, hplace, henvironment]
    rfl
  have hmaps : ∀ source ∈ sources, GivesMaps source := by
    rw [hlist]
    simp only [List.forall_mem_cons, givesMaps_schedulerSource, true_and]
    exact List.forall_mem_nil _
  exact ⟨⟨_, sources, hload, hvalid, rfl, hsources, hlayered hmaps⟩,
    ((load_layered .one).2 _).2 _ (by decide +kernel), _, hfile,
    ((load_layered .one).2 _).1 _ hfile⟩

/-- A text that allows overlaps, by a map. -/
def allowText : String := "scheduler:\n  overlap_policy:\n    allow: ~\n"

/-- A text that skips what overlaps, by a map. -/
def skipText : String := "scheduler:\n  overlap_policy:\n    skip: ~\n"

/-- The last source does not have the last word on a choice that it gives as a map, if another
source does so too. -/
theorem not_always_last : ¬∀ (processors : Processors) (node place : Option String)
    (environment : List (String × String)) (c : Config),
    load processors node place environment = .ok c → ∃ sources : List Setting,
      [source? node, source? place, some (ofEnvironment environment)] = sources.map some ∧
      ((∀ source ∈ sources, GivesMaps source) → ∀ f ∈ fields, ∀ before last,
        f.settings sources = before ++ [last] → f.read last = some (f.value c)) := by
  intro h
  let source (name : String) : Setting := schedulerSource "overlap_policy" (.map [(name, .null)])
  have hload : load .one (some allowText) (some skipText) [] = .ok (.default .one) := by cbv
  have hallow : source? (some allowText) = some (source "allow") := by cbv
  have hskip : source? (some skipText) = some (source "skip") := by cbv
  have hempty : ofEnvironment [] = .map [] := ofEnvironment_eq_empty (List.forall_mem_nil _)
  obtain ⟨sources, hsources, hlast⟩ := h _ _ _ _ _ hload
  have hlist : sources = [source "allow", source "skip", .map []] := by
    refine (List.map_injective_iff.2 (fun _ _ => Option.some.inj) ?_).symm
    rw [← hsources, hallow, hskip, hempty]
    rfl
  have hmaps : ∀ source ∈ sources, GivesMaps source := by
    rw [hlist]
    simp only [List.forall_mem_cons, source, givesMaps_schedulerSource, true_and]
    exact ⟨givesMaps_empty, List.forall_mem_nil _⟩
  subst hlist
  -- the last source says `skip`, while the policy that was read is `allow`
  have hread : some OverlapPolicy.skip = some .allow := hlast hmaps
    (.within "scheduler" scheduler SchedulerSettings.fields[2])
    (by simp [fields, SchedulerSettings.fields]) [.map [("allow", .null)]] (.map [("skip", .null)])
    rfl
  cases hread

end Config

end EntityCache
