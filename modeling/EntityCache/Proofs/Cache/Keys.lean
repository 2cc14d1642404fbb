import EntityCache.Cache.KeyValue
import Mathlib.Data.List.Basic
import Mathlib.Data.Set.Defs

/-!
# When two keys of a cache are the same

Every key of a cache is the scope `P:T:` of a type followed by a suffix.  A valid type has no colon,
so the scope and the suffix of a key are determined (`typeKey_inj`), and the four kinds of suffix
are told apart by their first word.

The suffix of a relationship, `relationships:I:R`, is another matter: neither the id nor the name is
held to anything, and the colon between them may be any colon of `I:R`.  `colon_split` says in which
ways two such texts can be equal.  Names from a set that is `Separable`, in which no name is the end
of another after a colon, leave only one way.
-/

namespace EntityCache

namespace KeyValueCache

variable (c : KeyValueCache) {type type' : String}

/-! ## Texts with a colon -/

theorem toList_inj {s t : String} (h : s.toList = t.toList) : s = t := String.ext h

/-- Where the text before one marked colon starts with the one before the other, the colons are at
the same place, or the shorter text ends at an unmarked colon of the longer one. -/
theorem colon_overlap {a b a' b' : String} {mid : List Char} (ha : a'.toList = a.toList ++ mid)
    (hb : ':' :: b.toList = mid ++ ':' :: b'.toList) :
    (a = a' ∧ b = b') ∨ ∃ t, a' = a ++ ":" ++ t ∧ b = t ++ ":" ++ b' := by
  cases mid with
  | nil =>
    simp only [List.append_nil, List.nil_append, List.cons.injEq, true_and] at ha hb
    exact .inl ⟨(toList_inj ha).symm, toList_inj hb⟩
  | cons ch mid =>
    rw [List.cons_append, List.cons.injEq] at hb
    obtain ⟨rfl, hb⟩ := hb
    refine .inr ⟨String.ofList mid, toList_inj ?_, toList_inj ?_⟩
    · simp [String.toList_append, ha]
    · simp [String.toList_append, hb]

/-- Two texts with a marked colon are equal only if the colons are at the same place, or one of the
colons is an unmarked one of the other text. -/
theorem colon_split {a b a' b' : String} (h : a ++ ":" ++ b = a' ++ ":" ++ b') :
    (a = a' ∧ b = b') ∨ (∃ t, a' = a ++ ":" ++ t ∧ b = t ++ ":" ++ b') ∨
      ∃ t, a = a' ++ ":" ++ t ∧ b' = t ++ ":" ++ b := by
  have hlist : a.toList ++ ':' :: b.toList = a'.toList ++ ':' :: b'.toList := by
    simpa [String.toList_append] using congrArg String.toList h
  rcases List.append_eq_append_iff.1 hlist with ⟨mid, ha, hb⟩ | ⟨mid, ha, hb⟩
  · rcases colon_overlap ha hb with hsame | hlater
    · exact .inl hsame
    · exact .inr (.inl hlater)
  · rcases colon_overlap ha hb with ⟨rfl, rfl⟩ | hlater
    · exact .inl ⟨rfl, rfl⟩
    · exact .inr (.inr hlater)

/-- Without a colon in front of the marked ones there is only one way to split. -/
theorem colon_split_first {a b a' b' : String} (ha : ':' ∉ a.toList) (ha' : ':' ∉ a'.toList)
    (h : a ++ ":" ++ b = a' ++ ":" ++ b') : a = a' ∧ b = b' := by
  rcases colon_split h with h | ⟨t, rfl, -⟩ | ⟨t, rfl, -⟩
  · exact h
  · simp [String.toList_append] at ha'
  · simp [String.toList_append] at ha

/-- No name of the set is another one behind a colon. -/
def Separable (names : Set String) : Prop :=
  ∀ r ∈ names, ∀ s ∈ names, ∀ t, r ≠ t ++ ":" ++ s

/-- Names without a colon are separable. -/
theorem separable_colonFree : Separable {name | ':' ∉ name.toList} := by
  rintro r hr s - t rfl
  exact hr (by simp [String.toList_append])

/-! ## Scopes -/

/-- The key of a suffix under a type. -/
def typeKey (type suffix : String) : String := c.keyPrefix ++ ":" ++ type ++ ":" ++ suffix

/-- A key determines its valid type and its suffix. -/
theorem typeKey_inj {s s' : String} (htype : ValidType type) (htype' : ValidType type') :
    c.typeKey type s = c.typeKey type' s' ↔ type = type' ∧ s = s' := by
  constructor
  · intro h
    refine colon_split_first htype.2 htype'.2 ?_
    have hlist := congrArg String.toList h
    simp only [typeKey, String.toList_append, List.append_assoc, List.append_cancel_left_eq]
      at hlist
    exact toList_inj (by simpa [String.toList_append] using hlist)
  · rintro ⟨rfl, rfl⟩
    rfl

/-- Where attributes are kept, as a key of their type. -/
theorem attributesKey_eq (type id : String) :
    c.attributesKey type id = c.typeKey type ("attributes:" ++ id) :=
  toList_inj (by simp [attributesKey, typeKey, String.toList_append])

/-- Where a relationship is kept, as a key of its type. -/
theorem relationshipKey_eq (type id name : String) :
    c.relationshipKey type id name = c.typeKey type ("relationships:" ++ (id ++ ":" ++ name)) :=
  toList_inj (by simp [relationshipKey, typeKey, String.toList_append])

/-- Where the names of relationships are kept, as a key of their type. -/
theorem indexKey_eq (type : String) : c.indexKey type = c.typeKey type "relationships" :=
  toList_inj (by simp [indexKey, typeKey, String.toList_append])

/-- Where the members are kept, as a key of their type. -/
theorem membersKey_eq (type : String) : c.membersKey type = c.typeKey type "members" :=
  toList_inj (by simp [membersKey, typeKey, String.toList_append])

/-! ## Keys of strings -/

/-- Valid types hold no colon, so the key of attributes tells both type and id. -/
theorem attributesKey_inj (htype : ValidType type) (htype' : ValidType type') {i j : String} :
    c.attributesKey type i = c.attributesKey type' j ↔ type = type' ∧ i = j := by
  rw [attributesKey_eq, attributesKey_eq, typeKey_inj c htype htype', String.append_right_inj]

/-- Two relationships share a key if and only if their ids and names run together to one text. -/
theorem relationshipKey_eq_iff (htype : ValidType type) (htype' : ValidType type')
    {i j r s : String} : c.relationshipKey type i r = c.relationshipKey type' j s ↔
      type = type' ∧ i ++ ":" ++ r = j ++ ":" ++ s := by
  rw [relationshipKey_eq, relationshipKey_eq, typeKey_inj c htype htype', String.append_right_inj]

/-- Separable names give every relationship a key of its own. -/
theorem relationshipKey_inj {names : Set String} (hnames : Separable names)
    (htype : ValidType type) (htype' : ValidType type') {i j r s : String} (hr : r ∈ names)
    (hs : s ∈ names) : c.relationshipKey type i r = c.relationshipKey type' j s ↔
      type = type' ∧ i = j ∧ r = s := by
  rw [relationshipKey_eq_iff c htype htype']
  constructor
  · rintro ⟨rfl, h⟩
    rcases colon_split h with ⟨rfl, rfl⟩ | ⟨t, -, ht⟩ | ⟨t, -, ht⟩
    · exact ⟨rfl, rfl, rfl⟩
    · exact absurd ht (hnames r hr s hs t)
    · exact absurd ht (hnames s hs r hr t)
  · rintro ⟨rfl, rfl, rfl⟩
    exact ⟨rfl, rfl⟩

/-- No id makes the key of attributes one of a relationship: they differ in the word after the
type. -/
theorem attributesKey_ne_relationshipKey (htype : ValidType type) (htype' : ValidType type')
    {i j s : String} : c.attributesKey type i ≠ c.relationshipKey type' j s := by
  rw [attributesKey_eq, relationshipKey_eq, ne_eq, typeKey_inj c htype htype']
  rintro ⟨-, h⟩
  simpa [String.toList_append] using congrArg String.toList h

/-! ## Keys of sets -/

/-- Each valid type has an index of its own. -/
theorem indexKey_inj (htype : ValidType type) (htype' : ValidType type') :
    c.indexKey type = c.indexKey type' ↔ type = type' := by
  rw [indexKey_eq, indexKey_eq, typeKey_inj c htype htype', and_iff_left rfl]

/-- Each valid type has members of its own. -/
theorem membersKey_inj (htype : ValidType type) (htype' : ValidType type') :
    c.membersKey type = c.membersKey type' ↔ type = type' := by
  rw [membersKey_eq, membersKey_eq, typeKey_inj c htype htype', and_iff_left rfl]

/-- The index of a type is not the set of members of any. -/
theorem indexKey_ne_membersKey (htype : ValidType type) (htype' : ValidType type') :
    c.indexKey type ≠ c.membersKey type' := by
  rw [indexKey_eq, membersKey_eq, ne_eq, typeKey_inj c htype htype']
  rintro ⟨-, h⟩
  exact absurd h (by decide)

/-- The key of a string of a valid type. -/
def IsStringKey (key : String) : Prop :=
  ∃ type, ValidType type ∧
    ((∃ id, key = c.attributesKey type id) ∨ ∃ id name, key = c.relationshipKey type id name)

/-- What is deleted for some ids and relationship names are keys of strings. -/
theorem isStringKey_of_mem_deleted (htype : ValidType type) {names ids : List String} {key : String}
    (h : key ∈ ids.flatMap fun id =>
      names.map (c.relationshipKey type id) ++ [c.attributesKey type id]) : c.IsStringKey key := by
  obtain ⟨id, -, hid⟩ := List.mem_flatMap.1 h
  rw [List.mem_append, List.mem_map, List.mem_singleton] at hid
  rcases hid with ⟨name, -, hkey⟩ | hkey
  · exact ⟨type, htype, .inr ⟨id, name, hkey.symm⟩⟩
  · exact ⟨type, htype, .inl ⟨id, hkey⟩⟩

/-- The suffix of a string has a colon, and that of a set has none. -/
theorem IsStringKey.ne_typeKey {key suffix : String} (h : c.IsStringKey key)
    (htype : ValidType type) (hsuffix : ':' ∉ suffix.toList) : key ≠ c.typeKey type suffix := by
  obtain ⟨type', htype', ⟨id, rfl⟩ | ⟨id, name, rfl⟩⟩ := h
  · rw [attributesKey_eq, ne_eq, typeKey_inj c htype' htype]
    rintro ⟨-, rfl⟩
    simp [String.toList_append] at hsuffix
  · rw [relationshipKey_eq, ne_eq, typeKey_inj c htype' htype]
    rintro ⟨-, rfl⟩
    simp [String.toList_append] at hsuffix

/-- A key of a string is not the key of an index. -/
theorem IsStringKey.ne_indexKey {key : String} (h : c.IsStringKey key) (htype : ValidType type) :
    key ≠ c.indexKey type := by
  rw [indexKey_eq]
  exact h.ne_typeKey c htype (by decide)

/-- A key of a string is not the key of a set of members. -/
theorem IsStringKey.ne_membersKey {key : String} (h : c.IsStringKey key)
    (htype : ValidType type) : key ≠ c.membersKey type := by
  rw [membersKey_eq]
  exact h.ne_typeKey c htype (by decide)

end KeyValueCache

end EntityCache
