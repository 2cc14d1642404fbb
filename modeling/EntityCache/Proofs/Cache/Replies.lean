import EntityCache.Proofs.Cache.Operations
import EntityCache.Proofs.Entity.Encoding

/-!
# A lookup makes of any reply what stands in it

A lookup asks for the names of an index, and then for one slot for every key that they make known.
The store may reply anything: any names, repeated ones too, any number of slots, any texts.  What a
slot is for follows from its place alone (`slotsFor`), so an id is never read from a slot of another
id or of another name, also where two keys are the same string.  `getAllByIds_anyReply` says for
every reply what the lookup gives: a failure of the store, where there are too few or too many
slots; a refusal, exactly where a text cannot be read that belongs to an id with attributes; and
otherwise the entities whose attributes are there, each from its own slots.
-/

namespace EntityCache

namespace KeyValueCache

variable {known ids : List String} {id : String} {slots : List (Option String)}

/-! ## What the slots are for -/

/-- What a slot is for: the attributes of an id, or its relationship of a name. -/
inductive Slot where
  | attributes (id : String)
  | relationship (id name : String)
deriving DecidableEq

/-- The id that a slot belongs to. -/
def Slot.owner : Slot → String
  | attributes id => id
  | relationship id _ => id

/-- The key of a slot. -/
def Slot.key (c : KeyValueCache) (type : String) : Slot → String
  | attributes id => c.attributesKey type id
  | relationship id name => c.relationshipKey type id name

/-- The slots of the ids in their order, those of an id one after another. -/
def slotsFor (known ids : List String) : List Slot :=
  ids.flatMap fun id => .attributes id :: known.map (.relationship id)

/-- The texts of a reply, each with what it is for. -/
def filled (known ids : List String) (slots : List (Option String)) : List (Slot × String) :=
  ((slotsFor known ids).zip slots).filterMap fun x => x.2.map (x.1, ·)

/-- The keys that are asked for are those of the slots. -/
theorem map_key_slotsFor (c : KeyValueCache) (type : String) (known ids : List String) :
    (slotsFor known ids).map (Slot.key c type) = ids.flatMap (c.entityKeys known type) := by
  rw [slotsFor, List.map_flatMap]
  refine List.flatMap_congr fun id _ => ?_
  rw [List.map_cons, List.map_map]
  rfl

/-- Each id has a slot for its attributes and one for each name known. -/
theorem length_slotsFor (known ids : List String) :
    (slotsFor known ids).length = ids.length * (known.length + 1) := by
  simp [slotsFor, List.length_flatMap]

/-- The first slots are those of the first id. -/
theorem filled_cons (id : String) (ids : List String) {row more : List (Option String)}
    (hrow : row.length = known.length + 1) :
    filled known (id :: ids) (row ++ more) = filled known [id] row ++ filled known ids more := by
  have hslots : slotsFor known (id :: ids) = slotsFor known [id] ++ slotsFor known ids := by
    simp [slotsFor]
  have hlength : (slotsFor known [id]).length = row.length := by
    rw [length_slotsFor, hrow, List.length_singleton, Nat.one_mul]
  rw [filled, hslots, List.zip_append hlength, List.filterMap_append]
  rfl

/-- What is filled belongs to an id asked for. -/
theorem owner_mem_of_mem_filled {x : Slot × String} (h : x ∈ filled known ids slots) :
    x.1.owner ∈ ids := by
  obtain ⟨⟨slot, text⟩, hmem, hx⟩ := List.mem_filterMap.1 h
  obtain ⟨-, -, rfl⟩ := Option.map_eq_some_iff.1 hx
  obtain ⟨id, hid, hslot⟩ := List.mem_flatMap.1 (List.of_mem_zip hmem).1
  rcases List.mem_cons.1 hslot with rfl | hname
  · exact hid
  · obtain ⟨name, -, rfl⟩ := List.mem_map.1 hname
    exact hid

/-- The texts of one id, and no others. -/
def ownTexts (id : String) (texts : List (Slot × String)) : List (Slot × String) :=
  texts.filter (·.1.owner == id)

/-- The own texts of an id are those in slots that it owns. -/
theorem mem_ownTexts {texts : List (Slot × String)} {x : Slot × String} :
    x ∈ ownTexts id texts ↔ x ∈ texts ∧ x.1.owner = id := by
  simp [ownTexts]

/-- An id that is not asked for has no texts. -/
theorem ownTexts_filled_of_notMem (h : id ∉ ids) : ownTexts id (filled known ids slots) = [] :=
  List.filter_eq_nil_iff.2 fun _ hx heq => h (beq_iff_eq.1 heq ▸ owner_mem_of_mem_filled hx)

/-- The first slots have the texts of the first id, the others those of the other ids. -/
theorem ownTexts_filled_cons {first : String} {row more : List (Option String)}
    (hfirst : first ∉ ids) (hrow : row.length = known.length + 1) :
    ownTexts id (filled known (first :: ids) (row ++ more)) =
      if id = first then ownTexts id (filled known [first] row)
      else ownTexts id (filled known ids more) := by
  rw [filled_cons first ids hrow, ownTexts, List.filter_append, ← ownTexts, ← ownTexts]
  split
  case isTrue hid =>
    subst hid
    rw [ownTexts_filled_of_notMem hfirst, List.append_nil]
  case isFalse hid =>
    have hnotMem : id ∉ [first] := fun hmem => hid (List.mem_singleton.1 hmem)
    rw [ownTexts_filled_of_notMem hnotMem, List.nil_append]

/-! ## Reading the slots of one id -/

/-- An id has attributes. -/
def HasAttributes (texts : List (Slot × String)) (id : String) : Prop :=
  ∃ text, (.attributes id, text) ∈ texts

/-- An id has attributes, and one of its texts cannot be read. -/
def Illegible (texts : List (Slot × String)) (id : String) : Prop :=
  ∃ text, (.attributes id, text) ∈ texts ∧
    (Attributes.decode? text = none ∨
      ∃ name text', (.relationship id name, text') ∈ texts ∧ Names.decode? text' = none)

/-- An entity has the attributes and the relationships that its own slots hold.  Where a name has
several slots, which only a repeated name has, the last text stands. -/
structure ReadFrom (texts : List (Slot × String)) (e : Entity) : Prop where
  attributes : ∃ text, (.attributes e.id, text) ∈ texts ∧
    Attributes.decode? text = some e.attributes
  relationships : ∀ name, e.relationships[name]? =
    (lastEntry texts (.relationship e.id name)).bind Names.decode?

/-! What is made of an id depends on its own texts only. -/

section OwnTexts

variable {texts texts' : List (Slot × String)}

/-- Whether an id has attributes depends on its own texts alone. -/
theorem hasAttributes_congr (h : ownTexts id texts = ownTexts id texts') :
    HasAttributes texts id ↔ HasAttributes texts' id := by
  have hown (texts : List (Slot × String)) :
      HasAttributes (ownTexts id texts) id ↔ HasAttributes texts id := by
    simp [HasAttributes, mem_ownTexts, Slot.owner]
  rw [← hown, h, hown]

/-- Whether an id can be read depends on its own texts alone. -/
theorem illegible_congr (h : ownTexts id texts = ownTexts id texts') :
    Illegible texts id ↔ Illegible texts' id := by
  have hown (texts : List (Slot × String)) :
      Illegible (ownTexts id texts) id ↔ Illegible texts id := by
    simp [Illegible, mem_ownTexts, Slot.owner]
  rw [← hown, h, hown]

/-- What is read for an id depends on its own texts alone. -/
theorem readFrom_congr {e : Entity} (h : ownTexts e.id texts = ownTexts e.id texts') :
    ReadFrom texts e ↔ ReadFrom texts' e := by
  have hlast (texts : List (Slot × String)) (name : String) :
      lastEntry (ownTexts e.id texts) (.relationship e.id name) =
        lastEntry texts (.relationship e.id name) :=
    lastEntry_filter fun x _ hx => by simp [hx, Slot.owner]
  have hown (texts : List (Slot × String)) :
      ReadFrom (ownTexts e.id texts) e ↔ ReadFrom texts e := by
    constructor
    · rintro ⟨hattributes, hrelationships⟩
      exact ⟨by simpa [mem_ownTexts, Slot.owner] using hattributes,
        fun name => hlast texts name ▸ hrelationships name⟩
    · rintro ⟨hattributes, hrelationships⟩
      exact ⟨by simpa [mem_ownTexts, Slot.owner] using hattributes,
        fun name => (hlast texts name).symm ▸ hrelationships name⟩
  rw [← hown, h, hown]

end OwnTexts

/-- The names whose slots are filled, with their texts. -/
def named (known : List String) (slots : List (Option String)) : List (String × String) :=
  (known.zip slots).filterMap fun x => x.2.map (x.1, ·)

/-- Relationships are read from the slots that are filled. -/
theorem decodeRelationships_eq (hlength : slots.length = known.length) :
    decodeRelationships known slots = decodeNamed (named known slots) := by
  induction known generalizing slots with
  | nil => cases slots <;> rfl
  | cons name known ih =>
    obtain ⟨slot, slots, rfl⟩ := List.exists_cons_of_length_eq_add_one hlength
    have hrest := ih (Nat.succ.inj hlength)
    cases slot with
    | none => rw [decodeRelationships, hrest]; rfl
    | some text => rw [decodeRelationships, hrest]; rfl

/-- Relationships are refused if one of their texts cannot be read, and are all read otherwise. -/
theorem decodeNamed_cases (texts : List (String × String)) :
    ((∃ x ∈ texts, Names.decode? x.2 = none) ∧ decodeNamed texts = .error unreadable) ∨
      (∀ x ∈ texts, Names.decode? x.2 ≠ none) ∧
        ∃ relationships, decodeNamed texts = .ok relationships ∧
          ∀ name, lastEntry relationships name = (lastEntry texts name).bind Names.decode? := by
  induction texts with
  | nil => exact .inr ⟨List.forall_mem_nil _, [], rfl, fun _ => rfl⟩
  | cons entry texts ih =>
    obtain ⟨name, text⟩ := entry
    cases htext : Names.decode? text with
    | none =>
      refine .inl ⟨⟨(name, text), List.mem_cons_self, htext⟩, ?_⟩
      rw [decodeNamed, htext]
    | some ids =>
      rcases ih with ⟨⟨x, hx, hnone⟩, herror⟩ | ⟨hall, relationships, hok, hlast⟩
      · refine .inl ⟨⟨x, List.mem_cons_of_mem _ hx, hnone⟩, ?_⟩
        rw [decodeNamed, htext, herror]
        rfl
      · refine .inr ⟨List.forall_mem_cons.2 ⟨by simp [htext], hall⟩, (name, ids) :: relationships,
          by rw [decodeNamed, htext, hok]; rfl, fun other => ?_⟩
        rw [lastEntry_cons, lastEntry_cons, hlast]
        cases hother : lastEntry texts other with
        | none => by_cases hname : name = other <;> simp [hname, htext]
        | some text' =>
          -- the later text stands, and it is read
          have hmem : (other, text') ∈ texts := mem_of_lastEntry hother
          obtain ⟨ids', hids'⟩ := Option.ne_none_iff_exists'.1 (hall _ hmem)
          simp [hids']

/-- The texts in the slots of one id: that of its attributes, and those of its names. -/
theorem filled_singleton (id : String) (slot : Option String) :
    filled known [id] (slot :: slots) =
      (slot.map (Slot.attributes id, ·)).toList ++
        (named known slots).map fun x => (.relationship id x.1, x.2) := by
  have hnames : ((known.map (Slot.relationship id)).zip slots).filterMap
      (fun x => x.2.map (x.1, ·)) =
        (named known slots).map fun x => (.relationship id x.1, x.2) := by
    rw [named, List.zip_map_left, List.filterMap_map, List.map_filterMap]
    refine List.filterMap_congr fun x _ => ?_
    obtain ⟨name, _ | text⟩ := x <;> rfl
  have hslots : slotsFor known [id] = .attributes id :: known.map (.relationship id) := by
    rw [slotsFor, List.flatMap_singleton]
  rw [filled, hslots, List.zip_cons_cons, ← hnames]
  cases slot <;> rfl

/-- What stands in the slots of one id for a name. -/
theorem lastEntry_filled_singleton (id name : String) (slot : Option String) :
    lastEntry (filled known [id] (slot :: slots)) (.relationship id name) =
      lastEntry (named known slots) name := by
  have hattributes : lastEntry (slot.map (Slot.attributes id, ·)).toList
      (.relationship id name) = none := by
    cases slot <;> simp [lastEntry]
  have hinjective : Function.Injective (Slot.relationship id) :=
    fun _ _ h => (Slot.relationship.inj h).2
  rw [filled_singleton, lastEntry_append, hattributes, Option.or_none, lastEntry_map hinjective]

/-- An entity is read from its own slots: it is refused if it is illegible, it is absent if it has
no attributes, and it has what its slots hold otherwise. -/
theorem decodeEntity_cases (id : String) {row : List (Option String)}
    (hrow : row.length = known.length + 1) :
    (Illegible (filled known [id] row) id ∧ decodeEntity known id row = .error unreadable) ∨
      ¬Illegible (filled known [id] row) id ∧
        (¬HasAttributes (filled known [id] row) id ∧ decodeEntity known id row = .ok none ∨
          ∃ e : Entity, decodeEntity known id row = .ok (some e) ∧ e.id = id ∧
            ReadFrom (filled known [id] row) e) := by
  obtain ⟨slot, slots, rfl⟩ := List.exists_cons_of_length_eq_add_one hrow
  have hattributes (text : String) :
      (.attributes id, text) ∈ filled known [id] (slot :: slots) ↔ slot = some text := by
    simp [filled_singleton]
  have hrelationship (name text : String) :
      (.relationship id name, text) ∈ filled known [id] (slot :: slots) ↔
        (name, text) ∈ named known slots := by
    simp [filled_singleton]
  -- the three conditions on texts become conditions on this one row
  simp only [Illegible, HasAttributes, hattributes, hrelationship]
  cases slot with
  | none => exact .inr ⟨by simp, .inl ⟨by simp, rfl⟩⟩
  | some text =>
    cases htext : Attributes.decode? text with
    | none => exact .inl ⟨⟨text, rfl, .inl htext⟩, by rw [decodeEntity, htext]⟩
    | some attributes =>
      have hdecode : decodeEntity known id (some text :: slots) =
          (decodeNamed (named known slots)).map fun relationships =>
            some ⟨id, attributes, Std.ExtTreeMap.ofList relationships⟩ := by
        rw [decodeEntity, htext, ← decodeRelationships_eq (Nat.succ.inj hrow)]
      rw [hdecode]
      -- attributes are there and legible; what is left is whether all sets of ids are
      rcases decodeNamed_cases (named known slots) with
        ⟨⟨⟨name, text'⟩, hmem, hnone⟩, herror⟩ | ⟨hall, relationships, hok, hlast⟩
      · exact .inl ⟨⟨text, rfl, .inr ⟨name, text', hmem, hnone⟩⟩, by rw [herror]; rfl⟩
      · refine .inr ⟨?_, .inr ⟨_, by rw [hok]; rfl, rfl,
          ⟨text, (hattributes text).2 rfl, htext⟩, fun name => ?_⟩⟩
        · rintro ⟨_, htext', hnone | ⟨name, text', hmem, hnone⟩⟩
          · cases htext'
            exact absurd (htext.symm.trans hnone) (by simp)
          · exact hall _ hmem hnone
        · rw [lastEntry_filled_singleton, ← hlast]
          exact getElem?_ofList

/-! ## Reading the slots of several ids -/

/-- The first entity is read from the first slots, the others from the other slots. -/
theorem decodeEntities_cons (id : String) (ids : List String) {row more : List (Option String)}
    (hrow : row.length = known.length + 1) :
    decodeEntities known (id :: ids) (row ++ more) =
      match decodeEntity known id row with
      | .error e => .error e
      | .ok none => decodeEntities known ids more
      | .ok (some entity) => (decodeEntities known ids more).map (entity :: ·) := by
  have hfirst : (row ++ more).take (known.length + 1) = row := List.take_left' hrow
  have hothers : (row ++ more).drop (known.length + 1) = more := List.drop_left' hrow
  cases hentity : decodeEntity known id row with
  | error e => simp only [decodeEntities, hfirst, hentity]
  | ok found => cases found <;> simp only [decodeEntities, hfirst, hothers, hentity]

/-- The items that are found among ids: those with attributes, in the order of the ids. -/
structure FoundAmong (texts : List (Slot × String)) (ids : List String) (items : List Entity) :
    Prop where
  sublist : (items.map (·.id)).Sublist ids
  mem_iff : ∀ id ∈ ids, id ∈ items.map (·.id) ↔ HasAttributes texts id
  readFrom : ∀ e ∈ items, ReadFrom texts e

section FoundAmong

variable {texts texts' : List (Slot × String)} {items : List Entity}

/-- What is found depends on the texts of the ids asked for alone. -/
theorem FoundAmong.congr (hfound : FoundAmong texts ids items)
    (h : ∀ id ∈ ids, ownTexts id texts = ownTexts id texts') : FoundAmong texts' ids items where
  sublist := hfound.sublist
  mem_iff id hid := (hfound.mem_iff id hid).trans (hasAttributes_congr (h id hid))
  readFrom e he :=
    (readFrom_congr (h _ (hfound.sublist.subset (List.mem_map_of_mem he)))).1
      (hfound.readFrom e he)

/-- An id without attributes adds nothing. -/
theorem FoundAmong.skip (hfound : FoundAmong texts ids items) (hid : id ∉ ids)
    (hnone : ¬HasAttributes texts id) : FoundAmong texts (id :: ids) items where
  sublist := hfound.sublist.cons _
  mem_iff := List.forall_mem_cons.2
    ⟨iff_of_false (fun hmem => hid (hfound.sublist.subset hmem)) hnone, hfound.mem_iff⟩
  readFrom := hfound.readFrom

/-- An id with attributes adds its entity. -/
theorem FoundAmong.cons {e : Entity} (hfound : FoundAmong texts ids items) (hid : e.id ∉ ids)
    (he : ReadFrom texts e) : FoundAmong texts (e.id :: ids) (e :: items) where
  sublist := hfound.sublist.cons_cons _
  mem_iff := by
    obtain ⟨text, htext, -⟩ := he.attributes
    refine List.forall_mem_cons.2 ⟨iff_of_true List.mem_cons_self ⟨text, htext⟩, ?_⟩
    intro other hother
    rw [List.map_cons, List.mem_cons, hfound.mem_iff other hother]
    exact or_iff_right (ne_of_mem_of_not_mem hother hid)
  readFrom := List.forall_mem_cons.2 ⟨he, hfound.readFrom⟩

end FoundAmong

/-- The entities of several ids are read each from its own slots. -/
theorem decodeEntities_cases (hnodup : ids.Nodup)
    (hlength : slots.length = ids.length * (known.length + 1)) :
    ((∃ id ∈ ids, Illegible (filled known ids slots) id) ∧
        decodeEntities known ids slots = .error unreadable) ∨
      (∀ id ∈ ids, ¬Illegible (filled known ids slots) id) ∧
        ∃ items, decodeEntities known ids slots = .ok items ∧
          FoundAmong (filled known ids slots) ids items := by
  induction ids generalizing slots with
  | nil => exact .inr ⟨by simp, [], rfl, .refl _, by simp, by simp⟩
  | cons id ids ih =>
    obtain ⟨hid, hids⟩ := List.nodup_cons.1 hnodup
    rw [List.length_cons, Nat.succ_mul] at hlength
    obtain ⟨row, more, hrow, hmore, rfl⟩ : ∃ row more, row.length = known.length + 1 ∧
        more.length = ids.length * (known.length + 1) ∧ row ++ more = slots :=
      ⟨slots.take (known.length + 1), slots.drop (known.length + 1),
        by rw [List.length_take]; omega, by rw [List.length_drop]; omega,
        List.take_append_drop _ _⟩
    -- the first id has its texts in the first slots, and the others have theirs in the others
    have hfirst : ownTexts id (filled known (id :: ids) (row ++ more)) =
        ownTexts id (filled known [id] row) := by
      rw [ownTexts_filled_cons hid hrow, if_pos rfl]
    have hothers (other : String) (hother : other ∈ ids) :
        ownTexts other (filled known ids more) =
          ownTexts other (filled known (id :: ids) (row ++ more)) := by
      rw [ownTexts_filled_cons hid hrow, if_neg (ne_of_mem_of_not_mem hother hid)]
    rw [decodeEntities_cons id ids hrow, List.exists_mem_cons_iff, List.forall_mem_cons,
      illegible_congr hfirst]
    rcases decodeEntity_cases id hrow with ⟨hillegible, herror⟩ | ⟨hlegible, hcases⟩
    · exact .inl ⟨.inl hillegible, by rw [herror]⟩
    rcases ih hids hmore with ⟨⟨other, hother, hillegible⟩, herror⟩ | ⟨hall, items, hok, hfound⟩
    · refine .inl ⟨.inr ⟨other, hother, (illegible_congr (hothers other hother)).1 hillegible⟩, ?_⟩
      rcases hcases with ⟨-, hnone⟩ | ⟨e, hsome, -⟩
      · rw [hnone, herror]
      · rw [hsome, herror]
        rfl
    · have hfound := hfound.congr hothers
      have hall (other : String) (hother : other ∈ ids) :
          ¬Illegible (filled known (id :: ids) (row ++ more)) other :=
        mt (illegible_congr (hothers other hother)).2 (hall other hother)
      rcases hcases with ⟨hnone, hrest⟩ | ⟨e, hsome, rfl, hread⟩
      · refine .inr ⟨⟨hlegible, hall⟩, items, by rw [hrest, hok], hfound.skip hid ?_⟩
        rwa [hasAttributes_congr hfirst]
      · exact .inr ⟨⟨hlegible, hall⟩, e :: items, by rw [hsome, hok]; rfl,
          hfound.cons hid ((readFrom_congr hfirst).2 hread)⟩

/-! ## The whole lookup -/

section Lookup

variable {σ : Type} {c : KeyValueCache} {type : String}

/-- What a lookup of ids makes of the names and the slots that it was given. -/
structure LookedUp (c : KeyValueCache) (type : String) (ids known : List String)
    (slots : List (Option String)) (result : Except DomainError (List Entity)) : Prop where
  /-- Too few or too many slots are a failure of the store. -/
  mismatched : slots.length ≠ ((slotsFor known (distinct ids)).map (Slot.key c type)).length →
    result = .error (slotMismatch slots.length
      ((slotsFor known (distinct ids)).map (Slot.key c type)).length)
  /-- No place of the slots of an id is missing. -/
  rows : slots.length = ((slotsFor known (distinct ids)).map (Slot.key c type)).length →
    ∀ n < (distinct ids).length,
      ((slots.drop (n * (known.length + 1))).take (known.length + 1)).length = known.length + 1
  /-- A text that cannot be read is refused where its id has attributes, and nothing else is. -/
  refused : slots.length = ((slotsFor known (distinct ids)).map (Slot.key c type)).length →
    ((∃ detail, result = .error (.serialization detail)) ↔
      ∃ id ∈ ids, Illegible (filled known (distinct ids) slots) id)
  /-- Otherwise the ids with attributes are found, in the order in which they are asked for. -/
  found : slots.length = ((slotsFor known (distinct ids)).map (Slot.key c type)).length →
    (∀ id ∈ ids, ¬Illegible (filled known (distinct ids) slots) id) →
    ∃ items, result = .ok items ∧
      ((items.map (·.id)).Pairwise fun a b => ids.idxOf a < ids.idxOf b) ∧
      (∀ id, id ∈ items.map (·.id) ↔
        id ∈ ids ∧ HasAttributes (filled known (distinct ids) slots) id) ∧
      ∀ e ∈ items, ReadFrom (filled known (distinct ids) slots) e

/-- As many keys are asked for as there are slots. -/
theorem length_keys (ids known : List String) :
    ((slotsFor known ids).map (Slot.key c type)).length = ids.length * (known.length + 1) := by
  rw [List.length_map, length_slotsFor]

/-- A reply with another number of slots is refused as a whole. -/
theorem lookedUp_of_length_ne {ids : List String}
    (h : slots.length ≠ ((slotsFor known (distinct ids)).map (Slot.key c type)).length) :
    LookedUp c type ids known slots (.error (slotMismatch slots.length
      ((slotsFor known (distinct ids)).map (Slot.key c type)).length)) :=
  ⟨fun _ => rfl, fun heq => absurd heq h, fun heq => absurd heq h, fun heq => absurd heq h⟩

/-- A reply with a slot for each key is read entity by entity. -/
theorem lookedUp_decodeEntities {ids : List String}
    (h : slots.length = ((slotsFor known (distinct ids)).map (Slot.key c type)).length) :
    LookedUp c type ids known slots (decodeEntities known (distinct ids) slots) := by
  have hlength := h.trans (length_keys (distinct ids) known)
  -- no mismatch; each row is complete; a failure is an illegible id; else the entities found are
  -- listed
  refine ⟨absurd h, fun _ n hn => ?_, fun _ => ?_, fun _ hlegible => ?_⟩
  · have hrows : (n + 1) * (known.length + 1) ≤ slots.length :=
      hlength ▸ Nat.mul_le_mul_right _ hn
    rw [Nat.succ_mul] at hrows
    rw [List.length_take, List.length_drop]
    omega
  · rcases decodeEntities_cases (nodup_distinct ids) hlength with
      ⟨⟨id, hid, hillegible⟩, herror⟩ | ⟨hlegible, items, hok, -⟩
    · exact iff_of_true ⟨_, herror⟩ ⟨id, mem_distinct.1 hid, hillegible⟩
    · refine iff_of_false ?_ ?_
      · rintro ⟨detail, herror⟩
        exact absurd (hok.symm.trans herror) (by simp)
      · rintro ⟨id, hid, hillegible⟩
        exact hlegible id (mem_distinct.2 hid) hillegible
  · rcases decodeEntities_cases (nodup_distinct ids) hlength with
      ⟨⟨id, hid, hillegible⟩, -⟩ | ⟨-, items, hok, hfound⟩
    · exact absurd hillegible (hlegible id (mem_distinct.1 hid))
    · refine ⟨items, hok, (pairwise_idxOf_distinct ids).sublist hfound.sublist, fun id => ?_,
        hfound.readFrom⟩
      constructor
      · intro hid
        have hdistinct := hfound.sublist.subset hid
        exact ⟨mem_distinct.1 hdistinct, (hfound.mem_iff id hdistinct).1 hid⟩
      · rintro ⟨hid, hattributes⟩
        exact (hfound.mem_iff id (mem_distinct.2 hid)).2 hattributes

/-- A failure of the store to answer ends an action. -/
theorem on_call_bind_error {α : Type} {serve : (r : Store.Request) → σ → r.Reply × σ}
    {r : Store.Request} {s s' : σ} {e : StoreError} (f : r.Answer → Action α)
    (h : serve r s = (.error e, s')) :
    Action.on serve (call r >>= f) s = (.error (.ofStoreError e), s') := by
  have hcall : Action.on serve (call r) s = (.error (.ofStoreError e), s') := by
    show ((serve r s).1.mapError _, (serve r s).2) = _
    rw [h]
    rfl
  rw [Action.on_bind, hcall]

/-- An action goes on with what the store has answered. -/
theorem on_call_bind_ok {α : Type} {serve : (r : Store.Request) → σ → r.Reply × σ}
    {r : Store.Request} {s s' : σ} {x : r.Answer} (f : r.Answer → Action α)
    (h : serve r s = (.ok x, s')) :
    Action.on serve (call r >>= f) s = Action.on serve (f x) s' := by
  refine Action.on_bind_ok serve f ?_
  show ((serve r s).1.mapError _, (serve r s).2) = _
  rw [h]
  rfl

/-- A store may reply anything to a lookup.  A failure is passed on; otherwise the lookup gives what
stands in the slots. -/
theorem getAllByIds_anyReply (serve : (r : Store.Request) → σ → r.Reply × σ) (c : KeyValueCache)
    {type : String} (htype : ValidType type) (ids : List String) (s : σ) :
    (ids = [] → Action.on serve (c.getAllByIds type ids) s = (.ok [], s)) ∧
    (ids ≠ [] →
      match serve (.smembers (c.indexKey type)) s with
      | (.error e, s₁) =>
        Action.on serve (c.getAllByIds type ids) s = (.error (.ofStoreError e), s₁)
      | (.ok known, s₁) =>
        match serve (.mget ((slotsFor known (distinct ids)).map (Slot.key c type))) s₁ with
        | (.error e, s₂) =>
          Action.on serve (c.getAllByIds type ids) s = (.error (.ofStoreError e), s₂)
        | (.ok slots, s₂) => ∃ result,
          Action.on serve (c.getAllByIds type ids) s = (result, s₂) ∧
            LookedUp c type ids known slots result) := by
  rw [getAllByIds, Action.on_bind_ok serve _ (on_validate serve htype s)]
  constructor
  · rintro rfl
    rfl
  intro hne
  have hdistinct : ¬(distinct ids).isEmpty := by
    rwa [List.isEmpty_iff, distinct_eq_nil]
  simp only [if_neg hdistinct]
  rcases hnames : serve (.smembers (c.indexKey type)) s with ⟨names, s₁⟩
  -- the service is any, so each of its two replies is taken as it comes
  cases names with
  | error e => exact on_call_bind_error _ hnames
  | ok known =>
    rw [on_call_bind_ok _ hnames]
    have hkeys := map_key_slotsFor c type known (distinct ids)
    generalize (distinct ids).flatMap (c.entityKeys known type) = keys at hkeys
    subst hkeys
    dsimp only
    rcases hslots : serve (.mget ((slotsFor known (distinct ids)).map (Slot.key c type))) s₁
      with ⟨reply, s₂⟩
    cases reply with
    | error e => exact on_call_bind_error _ hslots
    | ok slots =>
      dsimp only
      rw [on_call_bind_ok _ hslots]
      split
      case isTrue hlength => exact ⟨_, rfl, lookedUp_of_length_ne hlength⟩
      case isFalse hlength => exact ⟨_, rfl, lookedUp_decodeEntities (not_not.1 hlength)⟩

/-- A store that gives every lookup the same names and the same slots. -/
def replies (known : List String) (slots : List (Option String)) :
    (r : Store.Request) → Unit → r.Reply × Unit
  | .smembers _, s => (.ok known, s)
  | .mget _, s => (.ok slots, s)
  | _, s => (.error (.protocol "unexpected request"), s)

/-- Slots of two ids and a name.  The first id has a text that cannot be read, and no attributes. -/
def straySlots : List (Option String) :=
  [none, some "[", some "\x7b\x7d", some (Names.encode (.ofList ["a"]))]

/-- The text of an id without attributes does no harm. -/
theorem getAllByIds_anyReply_straySlots : ValidType "server" ∧ ∃ items,
    Action.on (replies ["zone"] straySlots)
      ((⟨"p"⟩ : KeyValueCache).getAllByIds "server" ["1", "2", "1"]) () = (.ok items, ()) ∧
    (∀ id, id ∈ items.map (·.id) ↔ id = "2") ∧
    ∀ e ∈ items, e.relationships["zone"]? = some (.ofList ["a"]) := by
  have htype : ValidType "server" := by decide
  have hdistinct : distinct ["1", "2", "1"] = ["1", "2"] := by decide +kernel
  have hattributes : Attributes.decode? "\x7b\x7d" ≠ none := by
    rw [← Option.isSome_iff_ne_none]
    decide +kernel
  have hfilled : filled ["zone"] (distinct ["1", "2", "1"]) straySlots =
      [(.relationship "1" "zone", "["), (.attributes "2", "\x7b\x7d"),
        (.relationship "2" "zone", Names.encode (.ofList ["a"]))] := by
    rw [hdistinct]
    rfl
  obtain ⟨result, hresult, hlooked⟩ :=
    (getAllByIds_anyReply (replies ["zone"] straySlots) ⟨"p"⟩ htype ["1", "2", "1"] ()).2
      (by simp)
  have hfound := hlooked.found (by rw [hdistinct]; rfl)
  rw [hfilled] at hfound
  -- of the texts, the only illegible one belongs to an id without attributes
  obtain ⟨items, rfl, -, hmem, hread⟩ := hfound fun id _ => by
    simp only [Illegible, List.mem_cons, Prod.mk.injEq, Slot.attributes.injEq,
      Slot.relationship.injEq, reduceCtorEq, false_and, or_false, false_or, List.not_mem_nil]
    rintro ⟨_, ⟨rfl, rfl⟩, hnone | ⟨name, text', hstray | hrelated, hnone⟩⟩
    · exact hattributes hnone
    · exact absurd hstray.1.1 (by decide)
    · rw [hrelated.2, Names.decode?_encode] at hnone
      exact absurd hnone (by simp)
  have hids (id : String) : id ∈ items.map (·.id) ↔ id = "2" := by
    rw [hmem]
    constructor
    · rintro ⟨-, text, htext⟩
      exact (by simpa using htext : id = "2" ∧ text = "\x7b\x7d").1
    · rintro rfl
      exact ⟨by decide, "\x7b\x7d", by simp⟩
  refine ⟨htype, items, hresult, hids, fun e he => ?_⟩
  have hid : e.id = "2" := (hids _).1 (List.mem_map_of_mem he)
  rw [(hread e he).relationships, hid]
  simp [lastEntry, Names.decode?_encode]

end Lookup

end KeyValueCache

end EntityCache
