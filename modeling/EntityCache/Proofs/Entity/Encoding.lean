import EntityCache.Proofs.Entity.Maps
import EntityCache.Proofs.Json.RoundTrip

/-!
# Stored entities are read back

A store keeps two kinds of text for an entity, one for its attributes and one for each of its sets
of related ids.  `Names.decode?_encode` holds of every set.  `Attributes.decode?_encode` needs that
the map is `Readable`, which is what the reader of attribute values asks for and no more.  Whether a
map is read at all is a matter of its levels alone (`Attributes.isSome_decode?_encode`).

The text of a map has its fields in the order in which the map lists them, so a map has many texts
(`Attributes.IsText`), and all that is said here is said of each of them.  The ids of a set may
stand in any order too (`Names.decode?_of_mem_iff`).
-/

namespace EntityCache

/-! ## Fields in any order -/

section AnyOrder

variable {fields fields' : List (String × Json)}

/-- The numbers of an object are readable if those of every field are. -/
theorem Json.numbersReadableFields_iff :
    NumbersReadableFields fields ↔ ∀ field ∈ fields, field.2.NumbersReadable := by
  induction fields with
  | nil => simp [NumbersReadableFields]
  | cons field fields ih => simp [NumbersReadableFields, ih]

/-- An object is in order below its own level if every field is. -/
theorem Json.orderedFields_iff : OrderedFields fields ↔ ∀ field ∈ fields, field.2.Ordered := by
  induction fields with
  | nil => simp [OrderedFields]
  | cons field fields ih => simp [OrderedFields, ih]

/-- The fields of an object have as many levels as the deepest. -/
theorem Json.depthFields_le_iff {levels : Nat} :
    depthFields fields ≤ levels ↔ ∀ field ∈ fields, field.2.depth ≤ levels := by
  induction fields with
  | nil => simp [depthFields]
  | cons field fields ih => simp [depthFields, ih]

/-- The numbers of an object fit if those of every field do. -/
theorem Json.numbersFitFields_iff :
    NumbersFitFields fields ↔ ∀ field ∈ fields, field.2.NumbersFit := by
  induction fields with
  | nil => simp [NumbersFitFields]
  | cons field fields ih => simp [NumbersFitFields, ih]

/-- Readable numbers stay so in any order of the fields. -/
theorem Json.numbersReadableFields_perm (h : fields.Perm fields') :
    NumbersReadableFields fields ↔ NumbersReadableFields fields' := by
  simp only [numbersReadableFields_iff, h.mem_iff]

/-- Numbers that fit stay so in any order of the fields. -/
theorem Json.numbersFitFields_perm (h : fields.Perm fields') :
    NumbersFitFields fields ↔ NumbersFitFields fields' := by
  simp only [numbersFitFields_iff, h.mem_iff]

/-- What is below the fields is in order in any order of the fields. -/
theorem Json.orderedFields_perm (h : fields.Perm fields') :
    OrderedFields fields ↔ OrderedFields fields' := by
  simp only [orderedFields_iff, h.mem_iff]

/-- Fields have the same levels in any order. -/
theorem Json.depthFields_perm (h : fields.Perm fields') :
    depthFields fields = depthFields fields' := by
  refine Nat.le_antisymm (depthFields_le_iff.2 ?_) (depthFields_le_iff.2 ?_)
  · simpa only [h.mem_iff] using depthFields_le_iff.1 (le_refl (depthFields fields'))
  · simpa only [h.mem_iff] using depthFields_le_iff.1 (le_refl (depthFields fields))

/-- A field of a new name is added. -/
theorem Json.insertField_perm {name : String} (value : Json) (h : name ∉ fields.map (·.1)) :
    (insertField name value fields).Perm ((name, value) :: fields) := by
  induction fields with
  | nil => exact .refl _
  | cons field rest ih =>
    obtain ⟨other, kept⟩ := field
    rw [List.map_cons, List.mem_cons, not_or] at h
    rw [insertField]
    split
    case h_1 => exact .refl _
    case h_2 heq => exact absurd (compare_eq_iff_eq.1 heq) h.1
    case h_3 => exact ((ih h.2).cons _).trans (.swap _ _ _)

/-- Fields of different names are put in order, and nothing else happens to them. -/
theorem Json.ofFields_perm (h : (fields.map (·.1)).Nodup) : (ofFields fields).Perm fields := by
  -- the induction is on the fields that are left, with those inserted so far in any order
  have hfold (before after : List (String × Json)) (h : ((after ++ before).map (·.1)).Nodup) :
      (after.foldl (fun ordered field => insertField field.1 field.2 ordered) before).Perm
        (after ++ before) := by
    induction after generalizing before with
    | nil => exact .refl _
    | cons field after ih =>
      rw [List.cons_append, List.map_cons, List.nodup_cons, List.map_append, List.mem_append,
        not_or] at h
      have hmoved : (after ++ insertField field.1 field.2 before).Perm
          (field :: (after ++ before)) :=
        ((insertField_perm field.2 h.1.2).append_left after).trans List.perm_middle
      refine (ih _ ?_).trans hmoved
      rw [(hmoved.map _).nodup_iff, List.map_cons, List.nodup_cons, List.map_append,
        List.mem_append, not_or]
      exact h
  have hall := hfold [] fields (by rwa [List.append_nil])
  rwa [List.append_nil] at hall

end AnyOrder

/-! ## Attributes -/

/-- An attribute map that is read back from its text: it has at most the levels of nesting that a
value may have, itself included, its objects list their fields in order, and its numbers are
readable. -/
structure Attributes.Readable (a : Attributes) : Prop where
  depth : (Json.object a.toList).depth ≤ Document.nestingLimit
  ordered : Json.OrderedFields a.toList
  numbers : Json.NumbersReadableFields a.toList

/-- An attribute map lists its names in order. -/
theorem Attributes.names_sorted (a : Attributes) : (a.toList.map (·.1)).Pairwise (· < ·) := by
  rw [List.pairwise_map]
  exact Std.ExtTreeMap.ordered_keys_toList.imp compare_lt_iff_lt.1

/-- Fields of different names that an attribute map is built from are its fields. -/
theorem Attributes.perm_of_ofList {a : Attributes} {fields : List (String × Json)}
    (hnodup : (fields.map (·.1)).Nodup) (h : Std.ExtTreeMap.ofList fields = a) :
    fields.Perm a.toList := by
  have hdistinct : fields.Pairwise fun p q => ¬compare p.1 q.1 = .eq :=
    (List.pairwise_map.1 hnodup).imp fun hne heq => hne (compare_eq_iff_eq.1 heq)
  have hlist : a.toList.Nodup := (List.pairwise_map.1 a.names_sorted).imp fun hlt heq =>
    String.ne_of_lt hlt (congrArg Prod.fst heq)
  rw [List.perm_ext_iff_of_nodup hnodup.of_map hlist]
  rintro ⟨name, v⟩
  rw [Std.ExtTreeMap.mem_toList_iff_getElem?_eq_some, ← h]
  refine ⟨Std.ExtTreeMap.getElem?_ofList_of_mem Std.ReflCmp.compare_self hdistinct,
    fun hfound => ?_⟩
  have hmem : name ∈ Std.ExtTreeMap.ofList fields :=
    Std.ExtTreeMap.isSome_getElem?_iff_mem.1 (by rw [hfound]; rfl)
  rw [Std.ExtTreeMap.mem_ofList, List.contains_iff_mem] at hmem
  obtain ⟨⟨name, w⟩, hfield, rfl⟩ := List.mem_map.1 hmem
  rw [Std.ExtTreeMap.getElem?_ofList_of_mem Std.ReflCmp.compare_self hdistinct hfield] at hfound
  exact Option.some.inj hfound ▸ hfield

/-- Lists of the same fields are equal if they have the names in the same order, each name once. -/
theorem Attributes.eq_of_perm_of_names {fields fields' : List (String × Json)}
    (h : fields.Perm fields') (hnames : fields.map (·.1) = fields'.map (·.1))
    (hnodup : (fields.map (·.1)).Nodup) : fields = fields' := by
  refine List.ext_getElem h.length_eq fun i hi hi' => ?_
  have hsame : (fields.map (·.1))[i]? = (fields'.map (·.1))[i]? := by rw [hnames]
  rw [List.getElem?_map, List.getElem?_map, List.getElem?_eq_getElem hi,
    List.getElem?_eq_getElem hi', Option.map_some, Option.map_some, Option.some_inj] at hsame
  exact List.inj_on_of_nodup_map hnodup (List.getElem_mem hi)
    (h.mem_iff.2 (List.getElem_mem hi')) hsame

/-- However an attribute map is listed, each of its names is listed once. -/
theorem Attributes.nodup_names {a : Attributes} {fields : List (String × Json)}
    (h : fields.Perm a.toList) : (fields.map (·.1)).Nodup :=
  (h.map _).nodup_iff.2 (a.names_sorted.imp String.ne_of_lt)

/-- An attribute map is the map of its fields. -/
theorem Attributes.ofList_of_perm {a : Attributes} {fields : List (String × Json)}
    (h : fields.Perm a.toList) : Std.ExtTreeMap.ofList fields = a := by
  refine ofList_eq_of_mem_iff ?_ fun name v => ?_
  · exact (List.pairwise_map.1 (nodup_names h)).imp fun hne heq => hne (compare_eq_iff_eq.1 heq)
  · rw [h.mem_iff, Std.ExtTreeMap.mem_toList_iff_getElem?_eq_some]

section Listed

variable {a : Attributes} {fields : List (String × Json)} (hfields : fields.Perm a.toList)

include hfields

/-- A readable attribute map is read back from its text. -/
theorem Attributes.decode?_encode (h : a.Readable) : decode? (encode fields) = some a := by
  have hnumbers := (Json.numbersReadableFields_perm hfields).2 h.numbers
  have hordered := (Json.orderedFields_perm hfields).2 h.ordered
  have hdepth : Json.depthFields fields ≤ 126 := by
    rw [Json.depthFields_perm hfields]
    exact Nat.le_of_succ_le_succ h.depth
  have hfit : (Json.object fields).NumbersFit := by
    rw [Json.NumbersFit]
    exact Json.NumbersReadableFields.fit hnumbers
  rw [decode?, encode, Document.read?_render_eq hfit, Option.bind_some, ofDocument?, Json.document,
    Document.nestingLimit, Document.value?,
    Document.fields?_fieldDocuments fields hnumbers hordered hdepth, Option.map_some]
  exact congrArg some (ofList_of_perm ((Json.ofFields_perm (nodup_names hfields)).trans hfields))

omit hfields in
/-- The levels of nesting of an attribute map, the map itself included. -/
def Attributes.depth (a : Attributes) : Nat := (Json.object a.toList).depth

omit hfields in
/-- Every integer in an attribute map fits a word. -/
def Attributes.NumbersFit (a : Attributes) : Prop := Json.NumbersFitFields a.toList

/-- The text of an attribute map is read, as some map, if and only if there are not too many
levels. -/
theorem Attributes.isSome_decode?_encode (h : a.NumbersFit) :
    (decode? (encode fields)).isSome ↔ a.depth ≤ Document.nestingLimit := by
  have hnumbers : (Json.object fields).NumbersFit := by
    rw [Json.NumbersFit]
    exact (Json.numbersFitFields_perm hfields).2 h
  have hdepth : a.depth = (Json.object fields).depth := by
    rw [depth, Json.depth, Json.depth, Json.depthFields_perm hfields]
  rw [decode?, encode, Document.read?_render_eq hnumbers, Option.bind_some, ofDocument?, hdepth,
    ← Document.isSome_value?_document _ hnumbers]
  -- what the document stands for is an object, if it is anything
  rw [Json.document]
  cases hread : Document.fields? 126 (Json.fieldDocuments fields) with
  | none => simp [Document.nestingLimit, Document.value?, hread]
  | some read => simp [Document.nestingLimit, Document.value?, hread]

end Listed

/-- An attribute map that a program can hold: its objects list their fields in order, and its
integers fit a word. -/
structure Attributes.Proper (a : Attributes) : Prop where
  ordered : Json.OrderedFields a.toList
  numbersFit : a.NumbersFit

/-- Readable attributes are in order and have numbers that fit. -/
theorem Attributes.Readable.proper {a : Attributes} (h : a.Readable) : a.Proper :=
  ⟨h.ordered, h.numbers.fit⟩

/-- An attribute map is read back from its text if and only if it is readable. -/
theorem Attributes.decode?_encode_iff {a : Attributes} {fields : List (String × Json)}
    (hfields : fields.Perm a.toList) (h : a.Proper) :
    decode? (encode fields) = some a ↔ a.Readable := by
  refine ⟨fun hread => ⟨?_, h.ordered, ?_⟩, decode?_encode hfields⟩
  · exact (isSome_decode?_encode hfields h.numbersFit).1 (by rw [hread]; rfl)
  have hfit := (Json.numbersFitFields_perm hfields).2 h.numbersFit
  have hordered := (Json.orderedFields_perm hfields).2 h.ordered
  have hnumbers : (Json.object fields).NumbersFit := by rwa [Json.NumbersFit]
  rw [decode?, encode, Document.read?_render_eq hnumbers, Option.bind_some, ofDocument?,
    Json.document, Document.nestingLimit, Document.value?] at hread
  cases hvalues : Document.fields? 126 (Json.fieldDocuments fields) with
  | none => simp [hvalues] at hread
  | some values =>
    have hnames := Document.names_of_fields?_fieldDocuments hvalues
    have hnodup : (values.map (·.1)).Nodup := hnames ▸ nodup_names hfields
    rw [hvalues, Option.map_some, Option.some_inj] at hread
    have hperm := (Json.ofFields_perm hnodup).symm.trans (perm_of_ofList (by
      rwa [((Json.ofFields_perm hnodup).map _).nodup_iff]) hread)
    -- the fields read have the names of those written, in the same order, so they are the same
    rw [eq_of_perm_of_names (hperm.trans hfields.symm) hnames hnodup] at hvalues
    rw [← Json.numbersReadableFields_perm hfields]
    exact Document.numbersReadable_of_fields? fields hfit hordered hvalues

/-- A text of an attribute map: its fields in an order in which the map may list them. -/
def Attributes.IsText (a : Attributes) (text : String) : Prop :=
  ∃ fields : List (String × Json), fields.Perm a.toList ∧ encode fields = text

/-- What is written for an item is a text of its attributes. -/
theorem Item.isText (item : Item) : item.attributes.IsText (Attributes.encode item.fields) :=
  ⟨item.fields, item.fields_perm, rfl⟩

/-- A slot holds attributes: it has a text of them, or it is empty and there are none. -/
def Attributes.Held (slot : Option String) (a : Option Attributes) : Prop :=
  Option.Rel (fun text a => a.IsText text) slot a

@[simp] theorem Attributes.held_none_iff {slot : Option String} : Held slot none ↔ slot = none := by
  cases slot with
  | none => exact iff_of_true .none rfl
  | some text => exact iff_of_false nofun nofun

@[simp] theorem Attributes.held_some_iff {slot : Option String} {a : Attributes} :
    Held slot (some a) ↔ ∃ text, slot = some text ∧ a.IsText text := by
  cases slot with
  | none => exact iff_of_false nofun nofun
  | some text => simp [Held]

/-! ## Sets of ids -/

/-- Documents whose values are strings hold these strings. -/
theorem Names.stringsOf?_of_items? {levels : Nat} {ds : List Document} {ids : List String}
    (h : Document.items? levels ds = some (ids.map .string)) : stringsOf? ds = some ids := by
  induction ds generalizing ids with
  | nil =>
    cases ids with
    | nil => rfl
    | cons id ids => simp [Document.items?] at h
  | cons d ds ih =>
    cases ids with
    | nil =>
      unfold Document.items? at h
      split at h <;> simp at h
    | cons id ids =>
      unfold Document.items? at h
      split at h
      case h_1 => simp at h
      case h_2 v hv =>
        obtain ⟨vs, hvs, heq⟩ := Option.map_eq_some_iff.1 h
        simp only [List.map_cons, List.cons.injEq] at heq
        obtain ⟨rfl, rfl⟩ := heq
        -- only the document of a text has a text as its value
        have hd : d = .string (some id) := by
          cases d with
          | string s => simpa [Document.value?] using hv
          | null | bool b | number n => simp [Document.value?] at hv
          | array items | object fields => cases levels <;> simp [Document.value?] at hv
        rw [hd, stringsOf?, ih hvs]
        rfl

/-- Strings are readable, ordered and flat. -/
theorem Json.strings_plain (ids : List String) :
    NumbersReadableItems (ids.map .string) ∧ OrderedItems (ids.map .string) ∧
      depthItems (ids.map .string) = 0 := by
  induction ids with
  | nil => exact ⟨trivial, trivial, rfl⟩
  | cons id ids ih =>
    simp only [List.map_cons, NumbersReadableItems, NumbersReadable, OrderedItems, Ordered,
      depthItems, depth, true_and]
    exact ⟨ih.1, ih.2.1, by omega⟩

/-- A set of ids is read back from a text that lists them in any order, also several times. -/
theorem Names.decode?_of_mem_iff {ids : List String} {related : Names}
    (h : ∀ id, id ∈ ids ↔ id ∈ related) :
    decode? (Json.array (ids.map .string)).render = some related := by
  obtain ⟨hnumbers, hordered, hdepth⟩ := Json.strings_plain ids
  obtain ⟨d, hread, hvalue⟩ := Document.read?_render (v := .array (ids.map .string))
    (by simpa only [Json.NumbersReadable] using hnumbers)
    (by simpa only [Json.Ordered] using hordered) (by rw [Json.depth, hdepth] : _ ≤ 1)
  -- a set does not remember in which order its ids were written, or how often
  have hset : Std.ExtTreeSet.ofList ids = related := by
    apply Std.ExtTreeSet.ext_mem
    simpa using h
  rw [decode?, hread, Option.bind_some]
  cases d with
  | array ds =>
    obtain ⟨vs, hvs, heq⟩ := Option.map_eq_some_iff.1 hvalue
    simp only [Json.array.injEq] at heq
    subst heq
    rw [ofDocument?, stringsOf?_of_items? hvs, Option.map_some, hset]
  | null | bool b | number n | string s => simp [Document.value?] at hvalue
  | object fields => simp [Document.value?] at hvalue

/-- Every set of ids is read back from its text. -/
theorem Names.decode?_encode (ids : Names) : decode? (encode ids) = some ids :=
  decode?_of_mem_iff fun _ => Std.ExtTreeSet.mem_toList

end EntityCache
