import EntityCache.Proofs.Setting.Overlay
import EntityCache.Setting.Environment
import EntityCache.Setting.Yaml

/-!
# Sources are ordered maps

Whatever is written in a source of settings, what it holds is a map whose maps list their fields by
increasing name: YAML text (`ordered_of_ofYaml?`), and environment variables, whose values may be
maps themselves (`ordered_ofEnvironment`).
-/

namespace EntityCache

namespace Setting

variable {s : Setting}

/-! ## YAML -/

theorem ofPlain_ne_map (word : String) (fields : List (String × Setting)) :
    ofPlain word ≠ .map fields := by
  simp only [ofPlain]
  split
  · nofun
  split
  · nofun
  split
  · nofun
  split
  · nofun
  split <;> nofun

/-- A scalar never stands for a map. -/
theorem ordered_of_ofScalar? {tag : Option String} {content : String} {isPlain : Bool}
    (h : ofScalar? tag content isPlain = some s) : s.Ordered := by
  apply Ordered.leaf
  rintro fields rfl
  -- a scalar is a word or has a tag that makes it one; none of them is a map
  cases tag with
  | none =>
    cases isPlain with
    | true => exact ofPlain_ne_map content fields (Option.some.inj h)
    | false => cases h
  | some tag =>
    simp only [ofScalar?] at h
    split at h
    · split at h <;> cases h
    split at h
    · simp at h
    split at h
    · simp at h
    split at h
    · split at h <;> cases h
    split at h <;> cases h

mutual

/-- What a node stands for is ordered. -/
theorem ordered_of_ofNode? : ∀ (node : Yaml.Node) {levels : Nat} {s : Setting},
    ofNode? levels node = some s → s.Ordered
  | .scalar _ _ _, _, _, h => ordered_of_ofScalar? (by rwa [ofNode?] at h)
  | .sequence tag items, levels, s, h => by
    cases levels with
    | zero => simp [ofNode?] at h
    | succ levels =>
      rw [ofNode?] at h
      split at h
      case isTrue => cases h
      case isFalse =>
        obtain ⟨read, -, rfl⟩ := Option.map_eq_some_iff.1 h
        exact .leaf nofun
  | .mapping tag fields, levels, s, h => by
    cases levels with
    | zero => simp [ofNode?] at h
    | succ levels =>
      rw [ofNode?] at h
      split at h
      case isTrue => cases h
      case isFalse =>
        obtain ⟨read, hread, rfl⟩ := Option.map_eq_some_iff.1 h
        exact ordered_ofFields (ordered_of_ofFieldNodes? fields hread)

/-- So are the values of fields. -/
theorem ordered_of_ofFieldNodes? : ∀ (fields : List (Yaml.Node × Yaml.Node)) {levels : Nat}
    {read : List (String × Setting)}, ofFieldNodes? levels fields = some read →
    ∀ field ∈ read, field.2.Ordered
  | [], _, _, h => by
    rw [ofFieldNodes?] at h
    cases h
    exact List.forall_mem_nil _
  | (name, node) :: fields, levels, read, h => by
    rw [ofFieldNodes?] at h
    split at h
    case h_1 name s hname hs =>
      obtain ⟨rest, hrest, rfl⟩ := Option.map_eq_some_iff.1 h
      exact List.forall_mem_cons.2
        ⟨ordered_of_ofNode? node hs, ordered_of_ofFieldNodes? fields hrest⟩
    case h_2 => cases h

end

/-- A source in YAML is an ordered map. -/
theorem ordered_of_ofYaml? {text : String} (h : ofYaml? text = some s) : s.Ordered ∧ s.IsMap := by
  rw [ofYaml?] at h
  split at h
  case h_1 fields _ =>
    obtain ⟨read, hread, rfl⟩ := Option.map_eq_some_iff.1 h
    exact ⟨ordered_ofFields (ordered_of_ofFieldNodes? fields hread), _, rfl⟩
  case h_2 =>
    cases h
    exact ⟨ordered_empty, _, rfl⟩
  case h_3 => cases h

/-! ## Environment variables -/

theorem ofWord_ne_map (word : List Char) (fields : List (String × Setting)) :
    ofWord word ≠ .map fields := by
  simp only [ofWord]
  split
  · nofun
  split
  · split
    · nofun
    split
    · split <;> nofun
    split <;> nofun
  · nofun

/-- The blanks after a value are no part of it. -/
theorem exists_of_skipGap {x : Option (Setting × List Char)} {rest : List Char}
    (h : (do let (value, rest) ← x; return (value, skipGap rest)) = some (s, rest)) :
    ∃ left, x = some (s, left) := by
  obtain ⟨⟨value, left⟩, rfl, hreturn⟩ := Option.bind_eq_some_iff.1 h
  cases hreturn
  exact ⟨left, rfl⟩

/-- What is read on one line is ordered, and so are the values of fields. -/
theorem ordered_of_read (depth : Nat) :
    (∀ {cs rest : List Char} {s : Setting}, readValue depth cs = some (s, rest) → s.Ordered) ∧
      ∀ {cs rest : List Char} {fields : List (String × Setting)},
        readFields depth cs = some (fields, rest) → ∀ field ∈ fields, field.2.Ordered := by
  induction depth with
  | zero => exact ⟨fun h => by simp [readValue] at h, fun h => by simp [readFields] at h⟩
  | succ depth ih =>
    constructor
    · intro cs rest s h
      rw [readValue] at h
      split at h
      all_goals obtain ⟨left, hvalue⟩ := exists_of_skipGap h
      case h_3 =>
        obtain ⟨⟨fields, rest⟩, hfields, hmap⟩ := Option.map_eq_some_iff.1 hvalue
        cases hmap
        exact ordered_ofFields (ih.2 hfields)
      case h_4 =>
        obtain ⟨⟨items, rest⟩, -, hlist⟩ := Option.map_eq_some_iff.1 hvalue
        cases hlist
        exact .leaf nofun
      case h_5 =>
        obtain ⟨⟨word, rest⟩, -, htext⟩ := Option.map_eq_some_iff.1 hvalue
        cases htext
        exact .leaf nofun
      case h_7 => cases hvalue
      case h_8 =>
        cases hvalue
        exact .leaf (ofWord_ne_map _)
      -- the rest are truth values and single characters
      all_goals
        cases hvalue
        exact .leaf nofun
    · intro cs rest fields h
      rw [readFields.eq_def] at h
      split at h
      case h_1 => cases h
      case h_2 =>
        cases h
        exact List.forall_mem_nil _
      case h_3 hdepth _ =>
        cases hdepth
        obtain ⟨⟨name, left⟩, -, h⟩ := Option.bind_eq_some_iff.1 h
        simp only at h
        split at h
        case h_2 => cases h
        obtain ⟨⟨value, left⟩, hvalue, h⟩ := Option.bind_eq_some_iff.1 h
        simp only at h
        split at h
        case h_1 =>
          obtain ⟨⟨others, left⟩, hothers, h⟩ := Option.bind_eq_some_iff.1 h
          cases h
          exact List.forall_mem_cons.2 ⟨ih.1 hvalue, ih.2 hothers⟩
        case h_2 =>
          cases h
          exact List.forall_mem_cons.2 ⟨ih.1 hvalue, List.forall_mem_nil _⟩
        case h_3 => cases h

/-- What a variable says is in order. -/
theorem ordered_ofInline (value : String) : (ofInline value).Ordered := by
  rw [ofInline]
  split
  case h_1 hread => exact (ordered_of_read _).1 hread
  case h_2 => exact .leaf nofun

/-- A path of maps with one field each is in order. -/
theorem ordered_nest {path : List String} (h : s.Ordered) : (nest path s).Ordered := by
  induction path with
  | nil => exact h
  | cons name path ih =>
    refine .map (List.pairwise_singleton _ _) fun field hfield => ?_
    rw [List.mem_singleton.1 hfield]
    exact ih

/-- A path has at least one part, which may be empty. -/
theorem pathParts_ne_nil (cs : List Char) : pathParts cs ≠ [] := by
  rw [pathParts.eq_def]
  split
  · nofun
  · nofun
  · nofun
  · split <;> nofun

/-- A variable has a name that is not empty. -/
theorem variablePath?_ne_nil {name : String} {path : List String}
    (h : variablePath? name = some path) : path ≠ [] := by
  simp only [variablePath?] at h
  split at h
  case isFalse => cases h
  split at h
  case isTrue => cases h
  case isFalse =>
    cases h
    exact fun hnil => pathParts_ne_nil _ (List.map_eq_nil_iff.1 hnil)

/-- Ordered maps put over each other make an ordered map. -/
theorem ordered_overlayAll {sources : List Setting}
    (h : ∀ source ∈ sources, source.Ordered ∧ source.IsMap) :
    (overlayAll sources).Ordered ∧ (overlayAll sources).IsMap := by
  have hfold (base : Setting) (hbase : base.Ordered ∧ base.IsMap) :
      (sources.foldl overlay base).Ordered ∧ (sources.foldl overlay base).IsMap := by
    induction sources generalizing base with
    | nil => exact hbase
    | cons source sources ih =>
      obtain ⟨⟨hordered, above, rfl⟩, hrest⟩ := List.forall_mem_cons.1 h
      obtain ⟨hbelow, below, rfl⟩ := hbase
      exact ih hrest _ ⟨hbelow.overlay hordered, _, rfl⟩
  exact hfold (map []) ⟨ordered_empty, _, rfl⟩

/-- Environment variables are an ordered map. -/
theorem ordered_ofEnvironment (environment : List (String × String)) :
    (ofEnvironment environment).Ordered ∧ (ofEnvironment environment).IsMap := by
  refine ordered_overlayAll fun source hsource => ?_
  obtain ⟨⟨name, value⟩, -, hvariable⟩ := List.mem_filterMap.1 hsource
  obtain ⟨path, hpath, rfl⟩ := Option.map_eq_some_iff.1 hvariable
  refine ⟨ordered_nest (ordered_ofInline value), ?_⟩
  cases path with
  | nil => exact absurd rfl (variablePath?_ne_nil hpath)
  | cons part path => exact ⟨_, rfl⟩

end Setting

end EntityCache
