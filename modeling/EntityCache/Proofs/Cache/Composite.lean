import EntityCache.Cache.Deployment
import EntityCache.Proofs.Cache.Direct
import Mathlib.Data.List.Forall2
import Mathlib.Data.List.Induction
import Mathlib.Data.List.Nodup
import Mathlib.Data.Set.Defs

/-!
# What a view over several caches shows

A reader `Shows` a type if its read operations agree on which entity stands under each id.  The
view over readers that show the type shows it too: under an id it has what its sources have under
this id, and nothing else (`composite_shows`).  The parts are put together as `Entity.Unites` says,
by what is in them: an attribute is that of the last source that has it, and a relationship has the
ids of all sources that have it.

A source may list an entity more than once, and in any place.  The view keeps one entity for each
id, and laying an entity over itself changes nothing that can be told from what `Unites` says
(`Entity.Unites.unique`).
-/

namespace EntityCache

/-! ## Entities laid over each other -/

namespace Entity

variable {earlier later : Entity} {name id : String}

/-- The later of two entities decides each attribute that it has. -/
theorem attributes_overlay (earlier later : Entity) (k : String) :
    (earlier.overlay later).attributes[k]? = later.attributes[k]?.or earlier.attributes[k]? :=
  getElem?_putAll _ _

/-- The union holds the ids of both sets. -/
theorem mem_union {a b : Names} : id ∈ union a b ↔ id ∈ a ∨ id ∈ b := by
  have hfold (l : List String) (a : Names) :
      id ∈ l.foldl (fun all id => all.insert id) a ↔ id ∈ a ∨ id ∈ l := by
    induction l generalizing a with
    | nil => simp
    | cons x l ih =>
      rw [List.foldl_cons, ih, Std.ExtTreeSet.mem_insert, compare_eq_iff_eq, List.mem_cons]
      tauto
  rw [union, Std.ExtTreeSet.foldl_eq_foldl_toList, hfold, Std.ExtTreeSet.mem_toList]

/-- Relationships are added one after another to those that are there. -/
theorem relationships_overlay_aux (l : List (String × Names)) (t : Relationships)
    (name id : String) :
    (name ∈ l.foldl (fun all p => all.insert p.1 (union (all.getD p.1 ∅) p.2)) t ↔
        name ∈ t ∨ ∃ p ∈ l, p.1 = name) ∧
      (id ∈ (l.foldl (fun all p => all.insert p.1 (union (all.getD p.1 ∅) p.2)) t).getD name ∅ ↔
        id ∈ t.getD name ∅ ∨ ∃ p ∈ l, p.1 = name ∧ id ∈ p.2) := by
  induction l generalizing t with
  | nil => simp
  | cons p l ih =>
    obtain ⟨hnamed, hrelated⟩ := ih (t.insert p.1 (union (t.getD p.1 ∅) p.2))
    rw [List.foldl_cons, hnamed, hrelated, Std.ExtTreeMap.mem_insert, compare_eq_iff_eq,
      List.exists_mem_cons_iff, List.exists_mem_cons_iff, Std.ExtTreeMap.getD_insert]
    by_cases hname : p.1 = name
    · subst hname
      simp [mem_union, or_assoc]
    · simp [hname]

/-- A relationship is there if it is in one of the two entities. -/
theorem mem_relationships_overlay (earlier later : Entity) (name : String) :
    name ∈ (earlier.overlay later).relationships ↔
      name ∈ earlier.relationships ∨ name ∈ later.relationships := by
  rw [overlay, Std.ExtTreeMap.foldl_eq_foldl_toList,
    (relationships_overlay_aux _ earlier.relationships name "").1]
  simp only [Prod.exists, exists_and_right, exists_eq_right,
    Std.ExtTreeMap.mem_toList_iff_getElem?_eq_some, ← Std.ExtTreeMap.isSome_getElem?_iff_mem,
    Option.isSome_iff_exists]

/-- A relationship has the ids that one of the two entities has in it. -/
theorem mem_related_overlay (earlier later : Entity) (name id : String) :
    id ∈ (earlier.overlay later).relationships.getD name ∅ ↔
      id ∈ earlier.relationships.getD name ∅ ∨ id ∈ later.relationships.getD name ∅ := by
  rw [overlay, Std.ExtTreeMap.foldl_eq_foldl_toList, (relationships_overlay_aux _ _ name id).2]
  have hlater : id ∈ later.relationships.getD name ∅ ↔
      ∃ ids, later.relationships[name]? = some ids ∧ id ∈ ids := by
    rw [Std.ExtTreeMap.getD_eq_getD_getElem?]
    cases later.relationships[name]? <;> simp
  rw [hlater]
  simp [Std.ExtTreeMap.mem_toList_iff_getElem?_eq_some]

/-! ## Entities put together -/

/-- An entity that has what `parts` have, and nothing else: each attribute from the last part that
has it, and each relationship with the ids of all parts that have it. -/
structure Unites (parts : List Entity) (e : Entity) : Prop where
  attributes : ∀ k : String, e.attributes[k]? = (parts.filterMap (·.attributes[k]?)).getLast?
  named : ∀ name, name ∈ e.relationships ↔ ∃ part ∈ parts, name ∈ part.relationships
  related : ∀ name id, id ∈ e.relationships.getD name ∅ ↔
    ∃ part ∈ parts, id ∈ part.relationships.getD name ∅

/-- An entity unites itself. -/
theorem Unites.singleton (e : Entity) : Unites [e] e where
  attributes k := by cases h : e.attributes[k]? <;> simp [h]
  named name := by simp
  related name id := by simp

/-- One more part is laid over what the others make. -/
theorem Unites.overlay {parts : List Entity} {e : Entity} (h : Unites parts e) (item : Entity) :
    Unites (parts ++ [item]) (e.overlay item) where
  attributes k := by
    rw [attributes_overlay, h.attributes, List.filterMap_append, List.getLast?_append]
    cases hk : item.attributes[k]? <;> simp [hk]
  named name := by
    rw [mem_relationships_overlay, h.named]
    simp [or_and_right, exists_or]
  related name id := by
    rw [mem_related_overlay, h.related]
    simp [or_and_right, exists_or]

/-- What is there of an id is told by its parts alone, in whatever list they are. -/
theorem Unites.of_parts {parts parts' : List Entity} {e : Entity} (h : Unites parts e)
    (hmem : ∀ part, part ∈ parts ↔ part ∈ parts')
    (hlast : ∀ k : String, (parts.filterMap (·.attributes[k]?)).getLast? =
      (parts'.filterMap (·.attributes[k]?)).getLast?) : Unites parts' e where
  attributes k := (h.attributes k).trans (hlast k)
  named name := by simp only [h.named, hmem]
  related name id := by simp only [h.related, hmem]

/-- Two entities of one id with the same parts are the same. -/
theorem Unites.unique {parts : List Entity} {e e' : Entity} (hid : e.id = e'.id)
    (h : Unites parts e) (h' : Unites parts e') : e = e' := by
  have hattributes : e.attributes = e'.attributes :=
    Std.ExtTreeMap.ext_getElem? fun k => (h.attributes k).trans (h'.attributes k).symm
  -- the related ids alone do not tell a relationship without ids from none, hence the names
  have hrelationships : e.relationships = e'.relationships := by
    refine Std.ExtTreeMap.ext_getElem? fun name => ?_
    have hnamed : name ∈ e.relationships ↔ name ∈ e'.relationships :=
      (h.named name).trans (h'.named name).symm
    have hrelated : e.relationships.getD name ∅ = e'.relationships.getD name ∅ :=
      Std.ExtTreeSet.ext_mem fun id => (h.related name id).trans (h'.related name id).symm
    rw [Std.ExtTreeMap.getD_eq_getD_getElem?, Std.ExtTreeMap.getD_eq_getD_getElem?] at hrelated
    rw [← Std.ExtTreeMap.isSome_getElem?_iff_mem, ← Std.ExtTreeMap.isSome_getElem?_iff_mem]
      at hnamed
    cases hname : e.relationships[name]? <;> cases hname' : e'.relationships[name]? <;>
      simp_all
  cases e
  cases e'
  simp_all

/-- Parts laid over each other, from the first to the last. -/
def unite (parts : List Entity) : Option Entity :=
  parts.foldl (fun old item => some (old.elim item (·.overlay item))) none

/-- One more part is laid over what the parts before it unite to. -/
theorem unite_concat (parts : List Entity) (item : Entity) :
    unite (parts ++ [item]) = some ((unite parts).elim item (·.overlay item)) := by
  rw [unite, List.foldl_append]
  rfl

/-- Any part at all makes an entity. -/
theorem unite_eq_none_iff {parts : List Entity} : unite parts = none ↔ parts = [] := by
  cases parts using List.reverseRecOn with
  | nil => simp [unite]
  | append_singleton parts item => simp [unite_concat]

/-- Parts of one id make an entity of this id, with what the parts have. -/
theorem unites_unite {parts : List Entity} (hparts : ∀ part ∈ parts, part.id = id) {e : Entity}
    (h : unite parts = some e) : e.id = id ∧ Unites parts e := by
  induction parts using List.reverseRecOn generalizing e with
  | nil => simp [unite] at h
  | append_singleton parts item ih =>
    rw [unite_concat] at h
    cases hunite : unite parts with
    | none =>
      obtain rfl := unite_eq_none_iff.1 hunite
      simp only [hunite, Option.elim_none, Option.some_inj] at h
      subst h
      exact ⟨hparts _ (by simp), .singleton _⟩
    | some old =>
      simp only [hunite, Option.elim_some, Option.some_inj] at h
      subst h
      obtain ⟨hid, hunites⟩ := ih (fun part hpart => hparts part (by simp [hpart])) hunite
      exact ⟨hid, hunites.overlay item⟩

/-- Parts that are the same but for repetitions make the same entity. -/
theorem unite_eq_unite {parts parts' : List Entity} (hparts : ∀ part ∈ parts, part.id = id)
    (hmem : ∀ part, part ∈ parts ↔ part ∈ parts')
    (hlast : ∀ k : String, (parts.filterMap (·.attributes[k]?)).getLast? =
      (parts'.filterMap (·.attributes[k]?)).getLast?) : unite parts = unite parts' := by
  have hparts' : ∀ part ∈ parts', part.id = id :=
    fun part hpart => hparts part ((hmem part).2 hpart)
  have hnil : parts = [] ↔ parts' = [] := by
    simp only [List.eq_nil_iff_forall_not_mem, hmem]
  cases h : unite parts with
  | none => exact (unite_eq_none_iff.2 (hnil.1 (unite_eq_none_iff.1 h))).symm
  | some e =>
    cases h' : unite parts' with
    | none => simp [unite_eq_none_iff.2 (hnil.2 (unite_eq_none_iff.1 h'))] at h
    | some e' =>
      obtain ⟨hid, hunites⟩ := unites_unite hparts h
      obtain ⟨hid', hunites'⟩ := unites_unite hparts' h'
      rw [(hunites.of_parts hmem hlast).unique (hid.trans hid'.symm) hunites']

end Entity

namespace Reader

/-! ## Merging what the sources answer -/

variable {asked : String → Prop} {view : String → Option Entity}
  {views : List (String → Option Entity)} {perSource : List (List Entity)}

/-- A list has the entities of the ids asked for, in any order, and each as often as it may be. -/
def Lists (asked : String → Prop) (view : String → Option Entity) (l : List Entity) : Prop :=
  ∀ e, e ∈ l ↔ asked e.id ∧ view e.id = some e

/-- The entity under an id has this id. -/
def Keyed (view : String → Option Entity) : Prop := ∀ id, ∀ e ∈ view id, e.id = id

/-- What is gathered under an id are the items of the id, laid over each other. -/
theorem getElem?_foldl_gather (items : List Entity) (id : String) :
    (items.foldl gather ∅)[id]? = Entity.unite (items.filter (·.id = id)) := by
  induction items using List.reverseRecOn with
  | nil => simp [Entity.unite]
  | append_singleton items item ih =>
    rw [List.foldl_append, List.foldl_cons, List.foldl_nil, List.filter_append]
    have hgather (merged : Std.ExtTreeMap String Entity) :
        gather merged item =
          merged.insert item.id (merged[item.id]?.elim item (Entity.overlay · item)) := by
      rw [gather]
      cases merged[item.id]? <;> rfl
    rw [hgather, Std.ExtTreeMap.getElem?_insert]
    by_cases hid : item.id = id
    · subst hid
      simp [Entity.unite_concat, ih]
    · simp [hid, ih]

/-- An entity is merged if it is what the items of its id make. -/
theorem mem_mergeSources {perSource : List (List Entity)} {e : Entity} :
    e ∈ mergeSources perSource ↔
      Entity.unite (perSource.flatten.filter (·.id = e.id)) = some e := by
  simp only [mergeSources, List.mem_filterMap, mem_distinct, getElem?_foldl_gather]
  constructor
  · rintro ⟨id, -, hunite⟩
    have hitems : ∀ item ∈ perSource.flatten.filter (·.id = id), item.id = id := by simp
    obtain ⟨rfl, -⟩ := Entity.unites_unite hitems hunite
    exact hunite
  · intro hunite
    refine ⟨e.id, ?_, hunite⟩
    -- something is made only if there is an item of the id
    by_contra hnone
    rw [Entity.unite_eq_none_iff.2] at hunite
    · exact Option.some_ne_none e hunite.symm
    · rw [List.filter_eq_nil_iff]
      intro item hitem hid
      exact hnone (List.mem_map.2 ⟨item, hitem, by simpa using hid⟩)

/-- The ids of what is merged are those of the sources, in the order in which they are first
seen. -/
theorem map_id_mergeSources (perSource : List (List Entity)) :
    (mergeSources perSource).map (·.id) = distinct (perSource.flatten.map (·.id)) := by
  have hgathered : ∀ id ∈ distinct (perSource.flatten.map (·.id)),
      (perSource.flatten.foldl gather ∅)[id]?.map (·.id) = some id := by
    intro id hid
    rw [getElem?_foldl_gather]
    cases hunite : Entity.unite (perSource.flatten.filter (·.id = id)) with
    | none =>
      -- something is gathered, since there is an item of the id
      obtain ⟨item, hitem, hkey⟩ := List.mem_map.1 (mem_distinct.1 hid)
      have hnil := Entity.unite_eq_none_iff.1 hunite
      rw [List.filter_eq_nil_iff] at hnil
      exact absurd (decide_eq_true hkey) (hnil item hitem)
    | some e => exact congrArg some (Entity.unites_unite (by simp) hunite).1
  rw [mergeSources, List.map_filterMap, List.filterMap_congr hgathered, List.filterMap_some]

/-- No id is merged twice. -/
theorem nodup_map_id_mergeSources (perSource : List (List Entity)) :
    ((mergeSources perSource).map (·.id)).Nodup := by
  rw [map_id_mergeSources]
  exact nodup_distinct _

/-- The last attribute of a list that has one entity only, if any, is that of the entity. -/
theorem getLast?_filterMap_of_mem_iff {β : Type} {l : List Entity} {part : Option Entity}
    (h : ∀ e, e ∈ l ↔ part = some e) (f : Entity → Option β) :
    (l.filterMap f).getLast? = part.bind f := by
  cases part with
  | none =>
    rw [List.eq_nil_iff_forall_not_mem.2 fun e he => Option.some_ne_none e ((h e).1 he).symm]
    rfl
  | some e =>
    have hne : l ≠ [] := List.ne_nil_of_mem ((h e).2 rfl)
    have hall : ∀ e' ∈ l, e' = e := fun e' he' => (Option.some_inj.1 ((h e').1 he')).symm
    rw [List.eq_replicate_of_mem hall]
    rw [List.filterMap_replicate]
    cases hf : f e with
    | none => simp [hf]
    | some k => simp [hf, List.getLast?_replicate, hne]

/-- The items of an id make what the entities of the id make of which each source has one at most,
if every source has answered with its entity. -/
theorem unite_filter_flatten {id : String} (h : List.Forall₂
    (fun view l => ∀ e, e ∈ l.filter (·.id = id) ↔ view id = some e) views perSource) :
    Entity.unite (perSource.flatten.filter (·.id = id)) =
      Entity.unite (views.filterMap (· id)) := by
  -- the same entities come on both sides, source by source
  have hmem (e : Entity) :
      e ∈ perSource.flatten.filter (·.id = id) ↔ e ∈ views.filterMap (· id) := by
    induction h with
    | nil => simp
    | cons hpart _ ih =>
      rw [List.flatten_cons, List.filter_append, List.mem_append, hpart, ih, List.mem_filterMap,
        List.mem_filterMap, List.exists_mem_cons_iff]
  have hitems : ∀ item ∈ perSource.flatten.filter (·.id = id), item.id = id := by simp
  refine Entity.unite_eq_unite hitems hmem fun k => ?_
  -- what counts for a key is the last entity that has it, which comes from the last source
  clear hmem hitems
  induction h with
  | nil => rfl
  | @cons view l views _ hpart _ ih =>
    rw [List.flatten_cons, List.filter_append, List.filterMap_append, List.getLast?_append, ih,
      getLast?_filterMap_of_mem_iff hpart]
    cases hview : view id with
    | none => simp [hview]
    | some e =>
      have hcons : (view :: views).filterMap (· id) = [e] ++ views.filterMap (· id) := by
        simp [hview]
      rw [hcons, List.filterMap_append, List.getLast?_append]
      cases hk : e.attributes[k]? <;> simp [hk]

/-- What the entities make that stand under an id in the sources. -/
def composed (views : List (String → Option Entity)) (id : String) : Option Entity :=
  Entity.unite (views.filterMap (· id))

/-- The composed view shows an id if one of the views does. -/
theorem isSome_composed {id : String} :
    (composed views id).isSome ↔ ∃ source ∈ views, (source id).isSome := by
  rw [Option.isSome_iff_ne_none, ne_eq, composed, Entity.unite_eq_none_iff,
    List.filterMap_eq_nil_iff]
  push Not
  simp only [Option.ne_none_iff_isSome]

/-- What the composed view shows under an id is united from what the views show under it. -/
theorem unites_composed (hkeyed : ∀ view ∈ views, Keyed view) {id : String} {e : Entity}
    (h : composed views id = some e) : e.id = id ∧ Entity.Unites (views.filterMap (· id)) e := by
  refine Entity.unites_unite (fun part hpart => ?_) h
  obtain ⟨view, hview, hpart⟩ := List.mem_filterMap.1 hpart
  exact hkeyed view hview id part hpart

/-- What is merged of lists of the ids asked for is such a list: it has what the views make. -/
theorem lists_mergeSources (h : List.Forall₂ (Lists asked) views perSource)
    (hkeyed : ∀ view ∈ views, Keyed view) :
    Lists asked (composed views) (mergeSources perSource) := by
  intro e
  rw [mem_mergeSources]
  by_cases hasked : asked e.id
  · have hparts : List.Forall₂
        (fun view l => ∀ part, part ∈ l.filter (·.id = e.id) ↔ view e.id = some part)
        views perSource := by
      -- a view shows an entity under its own id, so filtering by the id leaves what it shows
      refine ((List.forall₂_and_left views perSource).2 ⟨hkeyed, h⟩).imp fun view l hl part => ?_
      obtain ⟨hkeyed, hlists⟩ := hl
      rw [List.mem_filter, hlists, decide_eq_true_eq]
      constructor
      · rintro ⟨⟨-, hpart⟩, hid⟩
        rwa [hid] at hpart
      · intro hpart
        have hid := hkeyed _ part hpart
        rw [hid]
        exact ⟨⟨hasked, hpart⟩, rfl⟩
    rw [unite_filter_flatten hparts, composed]
    exact (and_iff_right hasked).symm
  · -- no source lists an id that is not asked for
    have hnone : perSource.flatten.filter (·.id = e.id) = [] := by
      induction h with
      | nil => rfl
      | cons hlists _ ih =>
        rw [List.flatten_cons, List.filter_append, ih fun v hv => hkeyed v (by simp [hv]),
          List.append_nil, List.filter_eq_nil_iff]
        intro item hitem hid
        rw [decide_eq_true_eq] at hid
        exact hasked (hid ▸ ((hlists item).1 hitem).1)
    rw [hnone, Entity.unite_eq_none_iff.2 rfl]
    simp [hasked]

/-! ## Operations that answer -/

variable {σ α β : Type} {S : Set σ}

/-- From every state of `S` the operation ends in `S`, with an answer that has `p`. -/
def Answers (S : Set σ) (op : ExceptT DomainError (StateM σ) α) (p : α → Prop) : Prop :=
  ∀ s ∈ S, ∃ a, ∃ s' ∈ S, op.run s = (.ok a, s') ∧ p a

/-- An answer at hand changes no state. -/
theorem answers_pure {a : α} {p : α → Prop} (h : p a) : Answers S (pure a) p :=
  fun s hs => ⟨a, s, hs, rfl, h⟩

/-- Operations that keep to the states of `S` do so one after the other. -/
theorem Answers.bind {op : ExceptT DomainError (StateM σ) α}
    {next : α → ExceptT DomainError (StateM σ) β} {p : α → Prop} {q : β → Prop}
    (h : Answers S op p) (hnext : ∀ a, p a → Answers S (next a) q) : Answers S (op >>= next) q := by
  intro s hs
  obtain ⟨a, s', hs', hop, ha⟩ := h s hs
  obtain ⟨b, s'', hs'', hrun, hb⟩ := hnext a ha s' hs'
  refine ⟨b, s'', hs'', ?_, hb⟩
  rw [← hrun]
  show (op.run >>= ExceptT.bindCont next) s = _
  show (ExceptT.bindCont next (op.run s).1) (op.run s).2 = _
  rw [hop]
  rfl

/-- An answer has whatever follows from what it has. -/
theorem Answers.mono {op : ExceptT DomainError (StateM σ) α} {p q : α → Prop}
    (h : Answers S op p) (hpq : ∀ a, p a → q a) : Answers S op q := by
  intro s hs
  obtain ⟨a, s', hs', hop, ha⟩ := h s hs
  exact ⟨a, s', hs', hop, hpq a ha⟩

/-- Sources that answer one by one answer together. -/
theorem answers_askAll {ask : Reader (StateM σ) → ExceptT DomainError (StateM σ) α}
    {R : β → α → Prop} {sources : List (Reader (StateM σ))} {views : List β}
    (h : List.Forall₂ (fun view source => Answers S (ask source) (R view)) views sources) :
    Answers S (askAll ask sources) (List.Forall₂ R views) := by
  induction h with
  | nil => exact answers_pure .nil
  | cons hfirst _ ih =>
    exact hfirst.bind fun a ha => ih.bind fun as has => answers_pure (.cons ha has)

/-! ## Views -/

/-- The three ways to read entities agree: `view` says which entity stands under each id. -/
structure Shows (S : Set σ) (type : String) (view : String → Option Entity)
    (r : Reader (StateM σ)) : Prop where
  keyed : Keyed view
  get : ∀ id, Answers S (r.get type id) (· = view id)
  getAll : Answers S (r.getAll type) (Lists (fun _ => True) view)
  getAllByIds : ∀ ids, Answers S (r.getAllByIds type ids) (Lists (· ∈ ids) view)

/-- One entity is read through the list of its id. -/
theorem answers_get {r : Reader (StateM σ)} {type : String} (hkeyed : Keyed view)
    (h : ∀ ids, Answers S (r.getAllByIds type ids) (Lists (· ∈ ids) view)) (id : String) :
    Answers S (r.get type id) (· = view id) := by
  refine (h [id]).bind fun found hfound => answers_pure ?_
  have hmem (e : Entity) : e ∈ found ↔ view id = some e := by
    refine (hfound e).trans ⟨?_, ?_⟩
    · rintro ⟨hid, he⟩
      rwa [List.mem_singleton.1 hid] at he
    · intro he
      have hid := hkeyed id e he
      rw [hid]
      exact ⟨List.mem_singleton_self _, he⟩
  have hlast := getLast?_filterMap_of_mem_iff hmem some
  rwa [List.filterMap_some, Option.bind_fun_some] at hlast

section Composite

variable {type : String} {sources : List (Reader (StateM σ))}

/-- What sources show they show under its own id. -/
theorem keyed_of_shows (h : List.Forall₂ (Shows S type) views sources) :
    ∀ view ∈ views, Keyed view :=
  ((List.forall₂_and_left views sources).1 (h.imp fun _ _ hshows => ⟨hshows.keyed, hshows⟩)).1

/-- `getAll` of the composite lists the composed view, each id once. -/
theorem answers_getAll_composite (h : List.Forall₂ (Shows S type) views sources) :
    Answers S ((composite sources).getAll type) fun found =>
      Lists (fun _ => True) (composed views) found ∧ (found.map (·.id)).Nodup :=
  (answers_askAll (h.imp fun _ _ hshows => hshows.getAll)).bind fun perSource hper =>
    answers_pure ⟨lists_mergeSources hper (keyed_of_shows h), nodup_map_id_mergeSources perSource⟩

/-- `getAllByIds` of the composite lists the composed view at the ids asked for, each id once. -/
theorem answers_getAllByIds_composite (h : List.Forall₂ (Shows S type) views sources)
    (ids : List String) : Answers S ((composite sources).getAllByIds type ids) fun found =>
      Lists (· ∈ ids) (composed views) found ∧ (found.map (·.id)).Nodup := by
  simp only [composite]
  split
  case isTrue hempty =>
    rw [List.isEmpty_iff] at hempty
    subst hempty
    exact answers_pure ⟨fun e => by simp, List.nodup_nil⟩
  case isFalse =>
    exact (answers_askAll (h.imp fun _ _ hshows => hshows.getAllByIds ids)).bind
      fun perSource hper => answers_pure
        ⟨lists_mergeSources hper (keyed_of_shows h), nodup_map_id_mergeSources perSource⟩

/-- A view over sources that each show what stands under an id shows what the sources have under
the id, put together: an id is there if it is in one source, an attribute is that of the last source
that has it, and a relationship has the ids of all sources that have it.  Its lists have each id
once. -/
theorem composite_shows (h : List.Forall₂ (Shows S type) views sources) :
    ∃ view : String → Option Entity,
      (∀ id, (view id).isSome ↔ ∃ source ∈ views, (source id).isSome) ∧
      (∀ id, ∀ e ∈ view id, Entity.Unites (views.filterMap (· id)) e) ∧
      Shows S type view (composite sources) ∧
      Answers S ((composite sources).getAll type) (fun found => (found.map (·.id)).Nodup) ∧
      ∀ ids, Answers S ((composite sources).getAllByIds type ids)
        (fun found => (found.map (·.id)).Nodup) := by
  have hkeyed : Keyed (composed views) :=
    fun id e he => (unites_composed (keyed_of_shows h) he).1
  have hgetAll := answers_getAll_composite h
  have hgetAllByIds := answers_getAllByIds_composite h
  -- what the composite reads is listed with each id once; to show it is to forget that
  have hshows : Shows S type (composed views) (composite sources) :=
    ⟨hkeyed, answers_get hkeyed fun ids => (hgetAllByIds ids).mono fun _ hfound => hfound.1,
      hgetAll.mono fun _ hfound => hfound.1,
      fun ids => (hgetAllByIds ids).mono fun _ hfound => hfound.1⟩
  refine ⟨composed views, fun id => isSome_composed, ?_, hshows, ?_, ?_⟩
  · exact fun id e he => (unites_composed (keyed_of_shows h) he).2
  · exact hgetAll.mono fun _ hfound => hfound.2
  · exact fun ids => (hgetAllByIds ids).mono fun _ hfound => hfound.2

end Composite

end Reader

/-! ## Caches in memory as sources -/

namespace DirectCache

variable {c : DirectCache} {type : String}

/-- Every entity of a type is kept under its id. -/
def Keyed (c : DirectCache) (type : String) : Prop := Reader.Keyed ((c.entities type)[·]?)

/-- Nothing is under a wrong id in an empty cache. -/
theorem keyed_empty (type : String) : ({} : DirectCache).Keyed type := by
  intro id e he
  simp [entities] at he

/-- Entities stand under their ids, whatever is merged. -/
theorem Keyed.mergeAll (h : c.Keyed type) (items : List Item) :
    (c.mergeAll type items).Keyed type := by
  intro id e he
  rw [entities_mergeAll, if_pos rfl] at he
  refine forall_foldl_mergeItem (P := fun id e => e.id = id) h (fun item _ old hold => ?_) id e he
  cases old with
  | none => rfl
  | some old => exact hold old rfl

/-- The visible entities of a type. -/
def view (c : DirectCache) (type id : String) : Option Entity :=
  (c.entities type)[id]?.filter (·.isVisible)

/-- The view of a type shows its visible entities. -/
theorem view_eq_some_iff {id : String} {e : Entity} :
    c.view type id = some e ↔ (c.entities type)[id]? = some e ∧ e.isVisible :=
  Option.filter_eq_some_iff

/-- A cache with every entity under its own id shows it so. -/
theorem Keyed.view (h : c.Keyed type) : Reader.Keyed (c.view type) :=
  fun id e he => h id e (view_eq_some_iff.1 he).1

/-- `getAll` lists the view of the type. -/
theorem lists_getAll (h : c.Keyed type) :
    Reader.Lists (fun _ => True) (c.view type) (c.getAll type) := by
  intro e
  rw [getAll, List.mem_filter, true_and, view_eq_some_iff]
  refine and_congr_left fun _ => ?_
  constructor
  · intro he
    obtain ⟨⟨id, e⟩, hmem, rfl⟩ := List.mem_map.1 he
    rw [Std.ExtTreeMap.mem_toList_iff_getElem?_eq_some] at hmem
    rwa [h id e hmem]
  · intro he
    exact List.mem_map.2 ⟨(e.id, e), Std.ExtTreeMap.mem_toList_iff_getElem?_eq_some.2 he, rfl⟩

/-- `getAllByIds` lists the view of the type at the ids asked for. -/
theorem lists_getAllByIds (h : c.Keyed type) (ids : List String) :
    Reader.Lists (· ∈ ids) (c.view type) (c.getAllByIds type ids) := by
  intro e
  rw [getAllByIds, List.mem_filter, List.mem_filterMap, view_eq_some_iff, ← and_assoc]
  refine and_congr_left fun _ => ?_
  constructor
  · rintro ⟨id, hid, he⟩
    rw [h id e he]
    exact ⟨mem_distinct.1 hid, he⟩
  · rintro ⟨hid, he⟩
    exact ⟨e.id, mem_distinct.2 hid, he⟩

end DirectCache

namespace CacheHandle

/-- A direct cache of a deployment shows its visible entities while nothing is written to it. -/
theorem shows_direct {S : Set Deployment} {name type : String} {c : DirectCache}
    (hc : ∀ d ∈ S, d.direct.getD name {} = c)
    (hS : ∀ d ∈ S, { d with direct := d.direct.insert name c } ∈ S) (h : c.Keyed type) :
    Reader.Shows S type (c.view type) (direct name).reader := by
  have hgetAllByIds (ids : List String) : Reader.Answers S
      ((direct name).reader.getAllByIds type ids) (Reader.Lists (· ∈ ids) (c.view type)) := by
    intro d hd
    obtain rfl := hc d hd
    exact ⟨_, _, hS d hd, rfl, DirectCache.lists_getAllByIds h ids⟩
  have hgetAll : Reader.Answers S ((direct name).reader.getAll type)
      (Reader.Lists (fun _ => True) (c.view type)) := by
    intro d hd
    obtain rfl := hc d hd
    exact ⟨_, _, hS d hd, rfl, DirectCache.lists_getAll h⟩
  exact ⟨h.view, Reader.answers_get h.view hgetAllByIds, hgetAll, hgetAllByIds⟩

end CacheHandle

namespace Reader

/-- An entity of the first of two sources. -/
def earlierEntity : Entity :=
  (({ id := "x" } : Entity).withAttribute "a" (.number (.integer 1))).withRelationship "r" ["1"]

/-- An entity with the same id of the second of two sources. -/
def laterEntity : Entity :=
  (((({ id := "x" } : Entity).withAttribute "a" (.number (.integer 2))).withAttribute "b"
    (.number (.integer 3))).withRelationship "r" ["2"]).withRelationship "s" ["9"]

def firstCache : DirectCache := DirectCache.mergeAll {} "type" [earlierEntity.listed]

def secondCache : DirectCache := DirectCache.mergeAll {} "type" [laterEntity.listed]

/-- A deployment of two caches that have an entity of one id each. -/
def twoCaches : Deployment where
  direct := ((∅ : Std.ExtTreeMap String DirectCache).insert "first" firstCache).insert "second"
    secondCache

/-- The states in which two caches hold what they do in `twoCaches`. -/
def asInTwoCaches : Set Deployment :=
  { d | d.direct.getD "first" {} = firstCache ∧ d.direct.getD "second" {} = secondCache }

/-- The view over two caches that both have an entity `x` reads the attributes of the second one and
the related ids of both. -/
theorem composite_shows_twoCaches :
    List.Forall₂ (Shows asInTwoCaches "type") [firstCache.view "type", secondCache.view "type"]
      [(CacheHandle.direct "first").reader, (CacheHandle.direct "second").reader] ∧
    ∃ e, (((composite [(CacheHandle.direct "first").reader,
        (CacheHandle.direct "second").reader]).get "type" "x").run twoCaches).1 = .ok (some e) ∧
      e.attributes["a"]? = some (.number (.integer 2)) ∧
      e.attributes["b"]? = some (.number (.integer 3)) ∧
      (∀ id, id ∈ e.relationships.getD "r" ∅ ↔ id = "1" ∨ id = "2") ∧
      ∀ id, id ∈ e.relationships.getD "s" ∅ ↔ id = "9" := by
  -- each cache of the state shows its own view, as the other one does not change it
  have hsources : List.Forall₂ (Shows asInTwoCaches "type")
      [firstCache.view "type", secondCache.view "type"]
      [(CacheHandle.direct "first").reader, (CacheHandle.direct "second").reader] := by
    refine .cons ?_ (.cons ?_ .nil)
    · exact CacheHandle.shows_direct (fun d hd => hd.1)
        (fun d hd => by simpa [asInTwoCaches, Std.ExtTreeMap.getD_insert] using hd.2)
        ((DirectCache.keyed_empty "type").mergeAll _)
    · exact CacheHandle.shows_direct (fun d hd => hd.2)
        (fun d hd => by simpa [asInTwoCaches, Std.ExtTreeMap.getD_insert] using hd.1)
        ((DirectCache.keyed_empty "type").mergeAll _)
  have hstate : twoCaches ∈ asInTwoCaches := by
    constructor
    · simp [twoCaches, Std.ExtTreeMap.getD_insert]
    · simp [twoCaches]
  have hparts : [firstCache.view "type", secondCache.view "type"].filterMap (· "x") =
      [earlierEntity, laterEntity] := by
    decide +kernel
  obtain ⟨view, hthere, hunites, hshows, -, -⟩ := composite_shows hsources
  refine ⟨hsources, ?_⟩
  obtain ⟨_, _, -, hrun, rfl⟩ := hshows.get "x" twoCaches hstate
  have hfirst : (firstCache.view "type" "x").isSome := by decide +kernel
  obtain ⟨e, he⟩ := Option.isSome_iff_exists.1 ((hthere "x").2 ⟨_, List.mem_cons_self, hfirst⟩)
  have hunites := hparts ▸ hunites "x" e he
  refine ⟨e, by rw [hrun, he], ?_, ?_, fun id => ?_, fun id => ?_⟩
  · rw [hunites.attributes]
    decide +kernel
  · rw [hunites.attributes]
    decide +kernel
  · rw [hunites.related]
    simp [earlierEntity, laterEntity, Entity.withRelationship, Entity.withAttribute,
      Std.ExtTreeMap.getD_insert, @eq_comm _ id]
  · rw [hunites.related]
    simp [earlierEntity, laterEntity, Entity.withRelationship, Entity.withAttribute,
      Std.ExtTreeMap.getD_insert, @eq_comm _ id]

end Reader

end EntityCache
