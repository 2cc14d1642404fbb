import EntityCache.Setting.Basic
import Mathlib.Data.String.Basic

/-!
# What stands at a place of trees put over each other

A path of names leads to a place of a tree (`Setting.at?`).  Where the tops of two trees are maps
along the way, the place of the one put over the other holds what the two hold there, one over the
other again (`at?_overlay`).  So what a list of trees gives at a place depends only on what each of
them has there (`at?_overlayAll`), and the last that has anything stands alone, unless it and the
one before are both maps (`joined_eq_last`).

This needs that a tree names nothing twice.  `Ordered` trees list the fields of their maps by
increasing name; trees put over each other stay ordered.
-/

namespace EntityCache

namespace Setting

variable {name k : String} {value lower upper s : Setting}
  {fields below above : List (String × Setting)}

/-! ## Maps that are in order -/

/-- Every map of the tree lists its fields by increasing name.  Lists are left aside, since nothing
is put together inside of them. -/
inductive Ordered : Setting → Prop
  | map {fields : List (String × Setting)} (names : (fields.map (·.1)).Pairwise (· < ·))
    (values : ∀ field ∈ fields, Ordered field.2) : Ordered (.map fields)
  | leaf {s : Setting} (h : ∀ fields, s ≠ .map fields) : Ordered s

theorem Ordered.names (h : (Setting.map fields).Ordered) : (fields.map (·.1)).Pairwise (· < ·) := by
  cases h with
  | map names => exact names
  | leaf h => exact absurd rfl (h fields)

theorem Ordered.values (h : (Setting.map fields).Ordered) : ∀ field ∈ fields, field.2.Ordered := by
  cases h with
  | map _ values => exact values
  | leaf h => exact absurd rfl (h fields)

theorem ordered_empty : (Setting.map []).Ordered := .map .nil (List.forall_mem_nil _)

/-- What is put into a list of fields is a field afterwards, and the others were there. -/
theorem mem_insertField {field : String × Setting} (h : field ∈ insertField name value fields) :
    field = (name, value) ∨ field ∈ fields := by
  induction fields with
  | nil => exact .inl (List.mem_singleton.1 h)
  | cons head rest ih =>
    obtain ⟨other, kept⟩ := head
    rw [insertField] at h
    split at h
    case h_1 => exact List.mem_cons.1 h
    case h_2 => exact (List.mem_cons.1 h).imp_right (List.mem_cons_of_mem _)
    case h_3 =>
      rcases List.mem_cons.1 h with rfl | h
      · exact .inr List.mem_cons_self
      · exact (ih h).imp_right (List.mem_cons_of_mem _)

/-- A field is inserted at its place. -/
theorem names_insertField (h : (fields.map (·.1)).Pairwise (· < ·)) :
    ((insertField name value fields).map (·.1)).Pairwise (· < ·) := by
  induction fields with
  | nil => exact List.pairwise_singleton _ _
  | cons head rest ih =>
    obtain ⟨other, kept⟩ := head
    obtain ⟨hother, hrest⟩ := List.pairwise_cons.1 h
    rw [insertField]
    split
    case h_1 hlt =>
      have hname : name < other := compare_lt_iff_lt.1 hlt
      refine List.pairwise_cons.2 ⟨List.forall_mem_cons.2 ⟨hname, fun x hx => ?_⟩, h⟩
      exact hname.trans (hother x hx)
    case h_2 heq =>
      rw [compare_eq_iff_eq.1 heq]
      exact h
    -- the field goes behind the first one, and what comes after is larger than both
    case h_3 hgt =>
      refine List.pairwise_cons.2 ⟨fun x hx => ?_, ih hrest⟩
      obtain ⟨field, hfield, rfl⟩ := List.mem_map.1 hx
      rcases mem_insertField hfield with rfl | hfield
      · exact compare_gt_iff_gt.1 hgt
      · exact hother _ (List.mem_map_of_mem hfield)

/-- A field may be put into an ordered map. -/
theorem Ordered.insertField (h : (Setting.map fields).Ordered) (hvalue : value.Ordered) :
    (Setting.map (insertField name value fields)).Ordered := by
  refine .map (names_insertField h.names) fun field hfield => ?_
  rcases mem_insertField hfield with rfl | hfield
  · exact hvalue
  · exact h.values field hfield

/-- A map made from ordered values is ordered. -/
theorem ordered_ofFields (h : ∀ field ∈ fields, field.2.Ordered) : (ofFields fields).Ordered := by
  have hfold (before after : List (String × Setting)) (hbefore : (Setting.map before).Ordered)
      (hafter : ∀ field ∈ after, field.2.Ordered) :
      (Setting.map (after.foldl (fun ordered field => insertField field.1 field.2 ordered)
        before)).Ordered := by
    induction after generalizing before with
    | nil => exact hbefore
    | cons field after ih =>
      obtain ⟨hfield, hrest⟩ := List.forall_mem_cons.1 hafter
      exact ih _ (hbefore.insertField hfield) hrest
  exact hfold [] fields ordered_empty h

/-! ## Putting trees over each other -/

/-- Anything but a map replaces what lies below it. -/
theorem overlay_of_ne_map (h : ∀ fields, upper ≠ .map fields) : overlay lower upper = upper := by
  cases upper with
  | map fields => exact absurd rfl (h fields)
  | _ => rfl

/-- A map replaces anything but a map. -/
theorem overlay_map_of_ne_map (h : ∀ below, lower ≠ .map below) :
    overlay lower (.map fields) = .map fields := by
  cases lower with
  | map below => exact absurd rfl (h below)
  | _ => rfl

theorem overlay_map_map :
    overlay (.map below) (.map above) = .map (overlayFields below above) := rfl

/-- A setting over another, where either may be missing. -/
def overlay? : Option Setting → Option Setting → Option Setting
  | below, none => below
  | none, some s => some s
  | some lower, some s => some (overlay lower s)

theorem overlay?_none_left (s : Option Setting) : overlay? none s = s := by cases s <;> rfl

theorem overlayFields_cons : overlayFields below ((name, value) :: above) =
    overlayFields (insertField name ((overlay? (below.lookup name) (some value)).getD value) below)
      above := by
  rw [overlayFields]
  cases below.lookup name <;> rfl

theorem mem_of_lookup (h : fields.lookup name = some s) : (name, s) ∈ fields := by
  obtain ⟨before, after, rfl, -⟩ := List.lookup_eq_some_iff.1 h
  exact List.mem_append_right _ List.mem_cons_self

/-- Fields are put over an ordered map one after another. -/
theorem ordered_overlayFields (hbelow : (Setting.map below).Ordered)
    (habove : ∀ field ∈ above, field.2.Ordered ∧
      ∀ lower : Setting, lower.Ordered → (overlay lower field.2).Ordered) :
    (Setting.map (overlayFields below above)).Ordered := by
  induction above generalizing below with
  | nil => exact hbelow
  | cons field above ih =>
    obtain ⟨name, value⟩ := field
    obtain ⟨⟨hvalue, hover⟩, hrest⟩ := List.forall_mem_cons.1 habove
    rw [overlayFields_cons]
    refine ih (hbelow.insertField ?_) hrest
    cases hlower : below.lookup name with
    | none => exact hvalue
    | some lower => exact hover lower (hbelow.values _ (mem_of_lookup hlower))

/-- Ordered trees put over each other are ordered. -/
theorem Ordered.overlay (hlower : lower.Ordered) (hupper : upper.Ordered) :
    (lower.overlay upper).Ordered := by
  induction hupper generalizing lower with
  | leaf h =>
    rw [overlay_of_ne_map h]
    exact .leaf h
  | map names values ih =>
    cases hlower with
    | leaf h =>
      rw [overlay_map_of_ne_map h]
      exact .map names values
    | map hnames hvalues =>
      exact ordered_overlayFields (.map hnames hvalues) fun field hfield =>
        ⟨values field hfield, fun _ hlower => ih field hfield hlower⟩

/-! ## What stands at a place -/

/-- What stands at the end of a path of names. -/
def at? : List String → Setting → Option Setting
  | [], s => some s
  | name :: rest, map fields => (fields.lookup name).bind (at? rest)
  | _ :: _, _ => none

/-- Whatever a path leads through is a map: it may end early, but it never comes to another setting
before its end. -/
def MapsAlong : List String → Setting → Prop
  | [], _ => True
  | name :: rest, map fields => ∀ s, fields.lookup name = some s → MapsAlong rest s
  | _ :: _, _ => False

/-- A map along a path has fields, and the rest of the path under the name. -/
theorem MapsAlong.exists_fields {path : List String} (h : s.MapsAlong (name :: path)) :
    ∃ fields, s = .map fields ∧ ∀ t, fields.lookup name = some t → t.MapsAlong path := by
  cases s with
  | map fields => exact ⟨fields, rfl, h⟩
  | _ => exact h.elim

theorem lookup_cons (field : String × Setting) :
    List.lookup k (field :: fields) = if k = field.1 then some field.2 else fields.lookup k := by
  by_cases h : k = field.1
  · rw [if_pos h, h, List.lookup_cons_self]
  · rw [if_neg h, List.lookup_cons, beq_false_of_ne h]

/-- A field that is put in is found, and the others stay. -/
theorem lookup_insertField (name : String) (value : Setting) :
    (insertField name value fields).lookup k =
      if k = name then some value else fields.lookup k := by
  induction fields with
  | nil => exact lookup_cons (name, value)
  | cons head rest ih =>
    obtain ⟨other, kept⟩ := head
    rw [insertField]
    split
    case h_1 => rw [lookup_cons]
    case h_2 heq =>
      rw [lookup_cons, lookup_cons, compare_eq_iff_eq.1 heq]
      split <;> rfl
    -- the name looked for may be that of the first field, which is not the one inserted
    case h_3 hgt =>
      rw [lookup_cons, lookup_cons, ih]
      have hne : other ≠ name := (compare_gt_iff_gt.1 hgt).ne
      by_cases hk : k = other
      · rw [if_pos hk, if_neg (hk ▸ hne), if_pos hk]
      · rw [if_neg hk, if_neg hk]

/-- Fields put over others are joined by name. -/
theorem lookup_overlayFields (h : (above.map (·.1)).Nodup) :
    (overlayFields below above).lookup k = overlay? (below.lookup k) (above.lookup k) := by
  induction above generalizing below with
  | nil => rfl
  | cons field above ih =>
    obtain ⟨name, value⟩ := field
    obtain ⟨hname, hrest⟩ := List.nodup_cons.1 h
    rw [overlayFields_cons, ih hrest, lookup_insertField, lookup_cons]
    by_cases hk : k = name
    · -- the name does not come again
      subst hk
      have hnone : above.lookup k = none := by
        rw [List.lookup_eq_none_iff]
        exact fun field hfield => bne_iff_ne.2 fun heq =>
          hname (List.mem_map.2 ⟨field, hfield, heq.symm⟩)
      rw [if_pos rfl, if_pos rfl, hnone]
      cases below.lookup k <;> rfl
    · rw [if_neg hk, if_neg hk]

/-- Along a path that leads through maps, a place of two trees put over each other holds what the
two hold there. -/
theorem at?_overlay {path : List String} (hlower : lower.MapsAlong path)
    (hupper : upper.MapsAlong path) (hordered : upper.Ordered) :
    (lower.overlay upper).at? path = overlay? (lower.at? path) (upper.at? path) ∧
      (lower.overlay upper).MapsAlong path := by
  induction path generalizing lower upper with
  | nil => exact ⟨rfl, trivial⟩
  | cons name path ih =>
    obtain ⟨below, rfl, hbelow⟩ := hlower.exists_fields
    obtain ⟨above, rfl, habove⟩ := hupper.exists_fields
    have hlookup : (overlayFields below above).lookup name =
        overlay? (below.lookup name) (above.lookup name) :=
      lookup_overlayFields (hordered.names.imp String.ne_of_lt)
    rw [overlay_map_map, at?, at?, at?, MapsAlong, hlookup]
    -- a name that only one of the two has keeps its setting; one of both is laid over further down
    cases hb : below.lookup name with
    | none =>
      cases ha : above.lookup name with
      | none => exact ⟨rfl, nofun⟩
      | some upper =>
        refine ⟨(overlay?_none_left _).symm, ?_⟩
        rintro _ ⟨⟩
        exact habove upper ha
    | some lower =>
      cases ha : above.lookup name with
      | none =>
        refine ⟨rfl, ?_⟩
        rintro _ ⟨⟩
        exact hbelow lower hb
      | some upper =>
        have hupper : upper.Ordered := hordered.values _ (mem_of_lookup ha)
        obtain ⟨hat, hmaps⟩ := ih (hbelow lower hb) (habove upper ha) hupper
        refine ⟨hat, ?_⟩
        rintro _ ⟨⟩
        exact hmaps

/-- What settings make when each is put over those before it. -/
def joined (settings : List Setting) : Option Setting :=
  settings.foldl (fun below s => overlay? below (some s)) none

/-- What stands at a place of trees put over each other is joined from what each has there. -/
theorem at?_overlayAll {sources : List Setting} {path : List String}
    (h : ∀ source ∈ sources, source.MapsAlong (name :: path) ∧ source.Ordered) :
    (overlayAll sources).at? (name :: path) =
      joined (sources.filterMap (at? (name :: path))) := by
  have hfold (base : Setting) (hbase : base.MapsAlong (name :: path)) :
      (sources.foldl overlay base).at? (name :: path) =
        (sources.filterMap (at? (name :: path))).foldl (fun below s => overlay? below (some s))
          (base.at? (name :: path)) := by
    induction sources generalizing base with
    | nil => rfl
    | cons source sources ih =>
      obtain ⟨⟨hsource, hordered⟩, hrest⟩ := List.forall_mem_cons.1 h
      obtain ⟨hat, hmaps⟩ := at?_overlay hbase hsource hordered
      rw [List.foldl_cons, ih hrest _ hmaps, hat, List.filterMap_cons]
      cases source.at? (name :: path) <;> rfl
  exact hfold (map []) nofun

/-- The setting is a map. -/
def IsMap (s : Setting) : Prop := ∃ fields, s = .map fields

/-- The last source is laid over those before it. -/
theorem joined_append_singleton (before : List Setting) (last : Setting) :
    joined (before ++ [last]) = overlay? (joined before) (some last) := by
  rw [joined, List.foldl_append]
  rfl

/-- Anything but a map stands alone, whatever lies below it. -/
theorem overlay?_of_not_isMap (below : Option Setting) (h : ¬upper.IsMap) :
    overlay? below (some upper) = some upper := by
  cases below with
  | none => rfl
  | some lower => exact congrArg some (overlay_of_ne_map fun fields heq => h ⟨fields, heq⟩)

/-- The last setting stands alone, unless it is a map and so is the one before. -/
theorem joined_eq_last {before : List Setting} {last : Setting}
    (h : last.IsMap → ∀ previous ∈ before.getLast?, ¬previous.IsMap) :
    joined (before ++ [last]) = some last := by
  rw [joined_append_singleton]
  by_cases hlast : last.IsMap
  case neg => exact overlay?_of_not_isMap _ hlast
  rcases List.eq_nil_or_concat before with rfl | ⟨init, previous, rfl⟩
  · rfl
  · have hprevious : ¬previous.IsMap := h hlast previous (by simp)
    obtain ⟨fields, rfl⟩ := hlast
    rw [List.concat_eq_append, joined_append_singleton, overlay?_of_not_isMap _ hprevious]
    exact congrArg some (overlay_map_of_ne_map fun below heq => hprevious ⟨below, heq⟩)

/-- A map stays a map, whatever it is put over. -/
theorem exists_joined_of_isMap (before : List Setting) {last : Setting} (h : last.IsMap) :
    ∃ fields, joined (before ++ [last]) = some (.map fields) := by
  obtain ⟨fields, rfl⟩ := h
  rw [joined_append_singleton]
  cases joined before with
  | none => exact ⟨fields, rfl⟩
  | some lower =>
    cases lower with
    | map below => exact ⟨_, rfl⟩
    | _ => exact ⟨fields, rfl⟩

end Setting

end EntityCache
