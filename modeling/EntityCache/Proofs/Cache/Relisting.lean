import EntityCache.Cache.Direct
import EntityCache.Collection
import EntityCache.Proofs.Cache.Operations
import EntityCache.Proofs.Entity.Encoding
import EntityCache.Proofs.Store.Repetition

/-!
# Maps that are listed in another order

An agent that loads the same again may hand over new maps, which list the same contents in another
order.  Then the requests of a merge come with other texts, and with their entries in another order,
but they `Relist` the requests of before: each key gets a text of the same map.

So the two runs leave stores with the same sets, and with strings that stand for the same
(`relisted_answerAll`).  When one comes after the other the first leaves no trace, since every
string that it has written is written again (`answerAll_relisting`).
-/

namespace EntityCache

open Store (Memory Request)

/-! ## Texts of one map -/

/-- Texts that stand for the same: they are equal, or they are texts of one attribute map. -/
def SameText (text text' : String) : Prop :=
  text = text' ∨ ∃ a : Attributes, a.IsText text ∧ a.IsText text'

theorem SameText.refl (text : String) : SameText text text := .inl rfl

/-- Slots that are both empty, or that have texts that stand for the same. -/
abbrev SameSlot : Option String → Option String → Prop := Option.Rel SameText

theorem SameSlot.refl (slot : Option String) : SameSlot slot slot := by
  cases slot with
  | none => exact .none
  | some text => exact .some (.refl text)

/-- Slots that fall back to another are the same if both of each are. -/
theorem SameSlot.or {x x' y y' : Option String} (hx : SameSlot x x') (hy : SameSlot y y') :
    SameSlot (x.or y) (x'.or y') := by
  cases hx with
  | some h => exact .some h
  | none => exact hy

/-! ## Requests -/

/-- A request that does what another one does, up to the order in which maps are listed. -/
inductive Relists : Request → Request → Prop
  | same (r : Request) : Relists r r
  | put {entries entries' : List (String × String)}
    (h : ∀ key, SameSlot (lastEntry entries key) (lastEntry entries' key)) :
    Relists (.mset entries) (.mset entries')

/-- Stores with the same sets, and with strings that stand for the same. -/
structure Relisted (m m' : Memory) : Prop where
  strings : ∀ key : String, SameSlot m.strings[key]? m'.strings[key]?
  sets : m.sets = m'.sets

theorem Relisted.refl (m : Memory) : Relisted m m := ⟨fun _ => .refl _, rfl⟩

namespace Relists

variable {m m' : Memory} {r r' : Request}

/-- A request keeps the string of a key, or fixes it. -/
theorem settles_strings (r : Request) (key : String) :
    Settles (fun m : Memory => m.strings[key]?) fun m => (m.answer r).2 := by
  have hcontent (m : Memory) : (m.answer r).2.strings[key]? = (m.content.answer r).2.strings key :=
    congrArg (fun held => held.strings key) (Memory.content_answer r m)
  rcases Store.Content.settles_strings r key with hkeep | ⟨a, ha⟩
  · exact .keeps fun m => (hcontent m).trans (hkeep m.content)
  · exact .fixes a fun m => (hcontent m).trans (ha m.content)

/-- What a request makes of the sets does not depend on the strings. -/
theorem sets_answer (hsets : m.sets = m'.sets) (r : Request) :
    (m.answer r).2.sets = (m'.answer r).2.sets := by
  cases r with
  | get _ | mget _ | smembers _ => exact hsets
  | set key value => exact hsets
  | mset entries =>
    rw [Memory.answer_mset, Memory.answer_mset]
    exact hsets
  | del keys =>
    apply Std.ExtTreeMap.ext_getElem?
    intro k
    rw [Memory.getElem?_sets_del, Memory.getElem?_sets_del, hsets]
  | sadd key members => simp only [Memory.answer, hsets]
  | srem key members =>
    simp only [Memory.answer, hsets]
    split <;> simp only [hsets]

/-- Requests that list the same, on stores that hold the same, leave stores that hold the same. -/
theorem relisted (h : Relists r r') (hm : Relisted m m') :
    Relisted (m.answer r).2 (m'.answer r').2 := by
  cases h with
  | same r =>
    refine ⟨fun key => ?_, sets_answer hm.sets r⟩
    rcases settles_strings r key with hkeep | ⟨a, ha⟩
    · have hslot := hm.strings key
      rwa [← show (m.answer r).2.strings[key]? = m.strings[key]? from hkeep m,
        ← show (m'.answer r).2.strings[key]? = m'.strings[key]? from hkeep m'] at hslot
    · rw [show (m.answer r).2.strings[key]? = a from ha m,
        show (m'.answer r).2.strings[key]? = a from ha m']
      exact .refl a
  | put h =>
    rw [Memory.answer_mset, Memory.answer_mset]
    refine ⟨fun key => ?_, hm.sets⟩
    simp only [getElem?_putEntries_eq]
    exact (h key).or (hm.strings key)

/-- A string is left by both requests, or it is fixed by the second. -/
theorem overrides_strings (h : Relists r r') (key : String) :
    Overrides (fun m : Memory => m.strings[key]?) (fun m => (m.answer r).2)
      fun m => (m.answer r').2 := by
  cases h with
  | same r => exact (settles_strings r key).overrides
  | @put entries entries' h =>
    have hput (entries : List (String × String)) (m : Memory) :
        (m.answer (.mset entries)).2.strings[key]? =
          (lastEntry entries key).or m.strings[key]? := by
      rw [Memory.answer_mset]
      exact getElem?_putEntries_eq _
    simp only [Overrides, hput]
    have hkey := h key
    generalize lastEntry entries key = slot, lastEntry entries' key = slot' at hkey ⊢
    cases hkey with
    | some => exact .inr ⟨_, fun m => rfl⟩
    | none => exact .inl ⟨fun m => rfl, fun m => rfl⟩

end Relists

variable {rs rs' : List Request}

/-- Two lists of requests leave the same but for the order in which maps are listed. -/
theorem relisted_answerAll (h : List.Forall₂ Relists rs rs') {m m' : Memory} (hm : Relisted m m') :
    Relisted (m.answerAll rs) (m'.answerAll rs') := by
  induction h generalizing m m' with
  | nil => exact hm
  | cons hr _ ih => exact ih (hr.relisted hm)

/-- Requests that relist those before them leave what they leave by themselves. -/
theorem answerAll_relisting (h : List.Forall₂ Relists rs rs') (hrs : ∀ key, .sadd key [] ∉ rs)
    (m : Memory) : (m.answerAll rs).answerAll rs' = m.answerAll rs' := by
  have hstrings : ((m.answerAll rs).answerAll rs').strings = (m.answerAll rs').strings := by
    apply Std.ExtTreeMap.ext_getElem?
    intro key
    exact (Overrides.foldl (h.imp fun _ _ hr => hr.overrides_strings key)).after m
  -- the sets are those that the first requests leave, and those change nothing when made again
  have hsets : ((m.answerAll rs).answerAll rs').sets = (m.answerAll rs').sets := by
    rw [← (relisted_answerAll h (.refl (m.answerAll rs))).sets, Memory.answerAll_answerAll hrs,
      (relisted_answerAll h (.refl m)).sets]
  generalize (m.answerAll rs).answerAll rs' = left at hstrings hsets ⊢
  obtain ⟨strings, sets⟩ := left
  obtain rfl : strings = _ := hstrings
  obtain rfl : sets = _ := hsets
  rfl

/-! ## Items -/

namespace KeyValueCache

variable (c : KeyValueCache) {type : String} {items items' : List Item}

/-- Entries that give each key a text that stands for the one of before relist it. -/
theorem sameSlot_lastEntry {entries entries' : List (String × String)} {key : String}
    (hunique : ∀ text text', (key, text) ∈ entries' → (key, text') ∈ entries' → text = text')
    (h : ∀ text, (key, text) ∈ entries → ∃ text', (key, text') ∈ entries' ∧ SameText text text')
    (h' : ∀ text, (key, text) ∈ entries' → ∃ text', (key, text') ∈ entries) :
    SameSlot (lastEntry entries key) (lastEntry entries' key) := by
  cases hlast : lastEntry entries key with
  | some text =>
    obtain ⟨text', hentry, hsame⟩ := h text (mem_of_lastEntry hlast)
    obtain ⟨last, hlast'⟩ := exists_lastEntry_of_mem hentry
    -- the last entry of the other list need not be this one, but it has the same text
    rw [hlast', hunique last text' (mem_of_lastEntry hlast') hentry]
    exact .some hsame
  | none =>
    cases hlast' : lastEntry entries' key with
    | none => exact .none
    | some text =>
      obtain ⟨text', hentry⟩ := h' text (mem_of_lastEntry hlast')
      obtain ⟨last, hlast''⟩ := exists_lastEntry_of_mem hentry
      rw [hlast] at hlast''
      cases hlast''

/-- An item writes no key twice. -/
theorem eq_of_mem_entries (htype : ValidType type) {item : Item} {key text text' : String}
    (h : (key, text) ∈ c.entries type item) (h' : (key, text') ∈ c.entries type item) :
    text = text' := by
  rcases c.mem_entries.1 h with ⟨-, rfl, rfl⟩ | ⟨name, ids, hids, rfl, rfl⟩
  · rcases c.mem_entries.1 h' with ⟨-, -, rfl⟩ | ⟨name, ids, -, hkey, -⟩
    · rfl
    · exact absurd hkey (c.attributesKey_ne_relationshipKey htype htype)
  · rcases c.mem_entries.1 h' with ⟨-, hkey, -⟩ | ⟨name', ids', hids', hkey, rfl⟩
    · exact absurd hkey.symm (c.attributesKey_ne_relationshipKey htype htype)
    · have hname := ((c.relationshipKey_eq_iff htype htype).1 hkey).2
      rw [String.append_right_inj] at hname
      subst hname
      rw [hids] at hids'
      rw [Option.some.inj hids']

/-- Items of one entity write the same keys, with texts that stand for the same. -/
theorem exists_mem_entries {item item' : Item} (h : item.toEntity = item'.toEntity)
    {key text : String} (hentry : (key, text) ∈ c.entries type item) :
    ∃ text', (key, text') ∈ c.entries type item' ∧ SameText text text' := by
  rcases c.mem_entries.1 hentry with ⟨hempty, hkey, rfl⟩ | ⟨name, ids, hids, hkey, rfl⟩
  · refine ⟨_, c.mem_entries.2 (.inl ⟨h ▸ hempty, h ▸ hkey, rfl⟩), .inr ⟨item.attributes, ?_, ?_⟩⟩
    · exact item.isText
    · rw [h]
      exact item'.isText
  · exact ⟨_, c.mem_entries.2 (.inr ⟨name, ids, h ▸ hids, h ▸ hkey, rfl⟩), .refl _⟩

/-- Items of the same entities write the same, but for the order in which maps are listed. -/
theorem relists_entries (htype : ValidType type)
    (h : items.map (·.toEntity) = items'.map (·.toEntity)) :
    Relists (.mset (items.flatMap (c.entries type))) (.mset (items'.flatMap (c.entries type))) := by
  refine .put fun key => ?_
  induction items generalizing items' with
  | nil =>
    obtain rfl : items' = [] := List.map_eq_nil_iff.1 h.symm
    exact .none
  | cons item items ih =>
    obtain ⟨item', rest, rfl, hitem, hrest⟩ := List.map_eq_cons_iff.1 h.symm
    rw [List.flatMap_cons, List.flatMap_cons, lastEntry_append, lastEntry_append]
    refine (ih hrest.symm).or (sameSlot_lastEntry ?_ ?_ ?_)
    · exact fun text text' hentry hentry' => c.eq_of_mem_entries htype hentry hentry'
    · exact fun text hentry => c.exists_mem_entries hitem.symm hentry
    · exact fun text hentry => (c.exists_mem_entries hitem hentry).imp fun _ => And.left

/-- Items of the same entities have the same names of relationships. -/
theorem relationshipNames_congr (h : items.map (·.toEntity) = items'.map (·.toEntity)) :
    relationshipNames items = relationshipNames items' := by
  have hfold (items : List Item) : relationshipNames items =
      ((items.map (·.toEntity)).foldl
        (fun all e => e.relationships.foldl (fun all name _ => all.insert name) all)
        (∅ : Names)).toList := by
    rw [List.foldl_map]
    rfl
  rw [hfold, h, ← hfold]

/-- Items of the same entities have the same ids to list. -/
theorem writtenIds_congr (h : items.map (·.toEntity) = items'.map (·.toEntity)) :
    (items.filter (!·.isBlank)).map (·.id) = (items'.filter (!·.isBlank)).map (·.id) := by
  have hids (items : List Item) : (items.filter (!·.isBlank)).map (·.id) =
      ((items.map (·.toEntity)).filter (!·.isBlank)).map (·.id) := by
    rw [List.filter_map, List.map_map]
    rfl
  rw [hids, h, ← hids]

end KeyValueCache

/-- Items of the same entities leave the same in a direct cache. -/
theorem DirectCache.mergeAll_congr {items items' : List Item}
    (h : items.map (·.toEntity) = items'.map (·.toEntity)) (d : DirectCache) (type : String) :
    d.mergeAll type items = d.mergeAll type items' := by
  have hfold (items : List Item) (stored : Entities) : items.foldl mergeItem stored =
      (items.map (·.toEntity)).foldl (fun stored e => mergeItem stored e.listed) stored := by
    rw [List.foldl_map]
    rfl
  have hempty : items.isEmpty = items'.isEmpty := by
    rw [← List.isEmpty_map (f := (·.toEntity)), h, List.isEmpty_map]
  rw [mergeAll, mergeAll, hempty, hfold, h, ← hfold]

/-! ## Snapshots -/

namespace Snapshot

variable {s s' : Snapshot} {type : String}

/-- The types of a snapshot are those with items or evictions. -/
theorem mem_types : type ∈ s.types ↔ type ∈ s.items ∨ type ∈ s.evictions := by
  -- both folds only add names
  have hfold {β : Type} (all : Names) (t : Std.ExtTreeMap String β) :
      type ∈ t.foldl (fun all type _ => all.insert type) all ↔ type ∈ all ∨ type ∈ t := by
    rw [Std.ExtTreeMap.foldl_eq_foldl_keys, ← Std.ExtTreeMap.mem_keys]
    induction t.keys generalizing all with
    | nil => simp
    | cons key keys ih =>
      rw [List.foldl_cons, ih, Std.ExtTreeSet.mem_insert, compare_eq_iff_eq, List.mem_cons]
      tauto
  rw [types, Std.ExtTreeSet.mem_toList, hfold, hfold]
  simp

/-- The types come in the order of their names. -/
theorem types_sorted (s : Snapshot) : s.types.Pairwise (· < ·) :=
  Std.ExtTreeSet.ordered_toList.imp compare_lt_iff_lt.1

/-- No type comes twice. -/
theorem nodup_types (s : Snapshot) : s.types.Nodup :=
  s.types_sorted.imp String.ne_of_lt

/-- Snapshots of the same contents: their items hold the same entities, and may list their maps in
different orders. -/
structure Alike (s s' : Snapshot) : Prop where
  items : ∀ type : String, s.items[type]?.map (·.map (·.toEntity)) =
    s'.items[type]?.map (·.map (·.toEntity))
  evictions : s.evictions = s'.evictions

theorem Alike.refl (s : Snapshot) : s.Alike s := ⟨fun _ => rfl, rfl⟩

/-- The items of a type hold the same entities. -/
theorem Alike.getD_items (h : s.Alike s') (type : String) :
    (s.items.getD type []).map (·.toEntity) = (s'.items.getD type []).map (·.toEntity) := by
  have hitems := h.items type
  rw [Std.ExtTreeMap.getD_eq_getD_getElem?, Std.ExtTreeMap.getD_eq_getD_getElem?]
  revert hitems
  cases s.items[type]? <;> cases s'.items[type]? <;> simp

/-- Snapshots that are alike have the same types in the same order. -/
theorem Alike.types_eq (h : s.Alike s') : s.types = s'.types := by
  refine List.Perm.eq_of_pairwise (fun a b _ _ hab hba => absurd hab (lt_asymm hba))
    s.types_sorted s'.types_sorted ?_
  rw [List.perm_ext_iff_of_nodup s.nodup_types s'.nodup_types]
  intro type
  simp only [mem_types, h.evictions, ← Std.ExtTreeMap.isSome_getElem?_iff_mem]
  rw [← Option.isSome_map, h.items, Option.isSome_map]

end Snapshot

/-- Loads that come to the same: both fail alike, or both have snapshots of the same contents. -/
inductive Load.Alike : Load → Load → Prop
  | refl (load : Load) : Alike load load
  | snapshots {s s' : Snapshot} (h : s.Alike s') : Alike (.loaded (.ok s)) (.loaded (.ok s'))

end EntityCache
