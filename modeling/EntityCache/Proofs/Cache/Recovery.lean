import EntityCache.Proofs.Cache.Layout
import EntityCache.Proofs.Cache.Listing

/-!
# A new entity is read as it was merged

An attribute map without doubles is read back whatever it contains, as long as it has no more levels
than a value may have (`Attributes.Exact`).  Such a map may be merged on any store that writes have
reached, also while others of them are under way.  If nothing is stored of the id, the next lookup
gives the item again (`get_merge_of_vacant`).  What is asked of the id is only that it has no
relationship: attributes would be written over.  Names with a colon are left out of the index, since
a key of theirs may be one of another id.
-/

namespace EntityCache

/-! ## Maps without doubles -/

namespace Json

/-- An integer of a signed or an unsigned word. -/
def Number.Whole : Number → Prop
  | .integer n => -2 ^ 63 ≤ n ∧ n < 2 ^ 64
  | .double _ => False

/-- Whole numbers are read back as they were. -/
theorem Number.Whole.readable {n : Number} (h : n.Whole) : n.Readable := by
  cases n with
  | integer n => exact h
  | double d => exact h.elim

mutual

/-- Every number in the value is an integer of a word. -/
def Whole : Json → Prop
  | null | bool _ | string _ => True
  | number n => n.Whole
  | array items => WholeItems items
  | object fields => WholeFields fields

/-- Every number in the values of the list is an integer of a word. -/
def WholeItems : List Json → Prop
  | [] => True
  | v :: rest => Whole v ∧ WholeItems rest

/-- Every number in the values of the fields is an integer of a word. -/
def WholeFields : List (String × Json) → Prop
  | [] => True
  | (_, v) :: rest => Whole v ∧ WholeFields rest

end

mutual

/-- Values with whole numbers only are read back as they were. -/
theorem Whole.readable : ∀ {v : Json}, v.Whole → v.NumbersReadable
  | .null, _ | .bool _, _ | .string _, _ => by simp [NumbersReadable]
  | .number n, h => by
    rw [NumbersReadable]
    exact Number.Whole.readable (by simpa only [Whole] using h)
  | .array items, h => by
    rw [NumbersReadable]
    exact WholeItems.readable (by simpa only [Whole] using h)
  | .object fields, h => by
    rw [NumbersReadable]
    exact WholeFields.readable (by simpa only [Whole] using h)

/-- Arrays with whole numbers only are read back as they were. -/
theorem WholeItems.readable : ∀ {items : List Json}, WholeItems items → NumbersReadableItems items
  | [], _ => trivial
  | _ :: _, h => ⟨Whole.readable h.1, WholeItems.readable h.2⟩

/-- Objects with whole numbers only are read back as they were. -/
theorem WholeFields.readable :
    ∀ {fields : List (String × Json)}, WholeFields fields → NumbersReadableFields fields
  | [], _ => trivial
  | (_, _) :: _, h => ⟨Whole.readable h.1, WholeFields.readable h.2⟩

end

end Json

/-- An attribute map without doubles, of at most the levels that a value may have.  Its objects list
their fields in order. -/
structure Attributes.Exact (a : Attributes) : Prop where
  depth : a.depth ≤ Document.nestingLimit
  ordered : Json.OrderedFields a.toList
  whole : Json.WholeFields a.toList

/-- Exact attributes are read back as they were. -/
theorem Attributes.Exact.readable {a : Attributes} (h : a.Exact) : a.Readable :=
  ⟨h.depth, h.ordered, h.whole.readable⟩

namespace KeyValueCache

open Store (Backing Calls Content)

/-- Of an id of which no relationship is stored a lookup gives what has just been merged for it, as
long as no relationship of the type has a name with a colon.  For the texts of a store are read
back, in whatever order they list the names of a map and the ids of a set. -/
theorem get_merge_of_vacant {c : KeyValueCache} {type : String}
    {running : List (Calls (Except DomainError Unit))} {b : Backing}
    (h : c.Reached Set.univ running b) (htype : ValidType type) {item : Item}
    (hexact : item.attributes.Exact) (hempty : item.attributes.isEmpty = false)
    (hindexed : ∀ name ∈ b.content.sets (c.indexKey type), ':' ∉ name.toList)
    (hvacant : ∀ name, ':' ∉ name.toList →
      b.content.strings (c.relationshipKey type item.id name) = none) :
    (∃ b', Action.on Backing.serve (c.writer.merge type item) b = (.ok (), b') ∧
      (Action.on Backing.serve (c.reader.get type item.id) b').1 = .ok (some item.toEntity)) ∧
    (∀ fields : List (String × Json), fields.Perm item.attributes.toList →
      Attributes.decode? (Json.object fields).render = some item.attributes) ∧
    ∀ (related : Names) (ids : List String), (∀ id, id ∈ ids ↔ id ∈ related) →
      Names.decode? (Json.array (ids.map .string)).render = some related := by
  refine ⟨?_, fun fields hfields => Attributes.decode?_encode hfields hexact.readable,
    fun related ids hids => Names.decode?_of_mem_iff hids⟩
  obtain ⟨⟨m, htwin⟩, -⟩ := h.twin
  obtain ⟨m', hmerge, hmerged⟩ := c.on_mergeAll htype [item] m
  obtain ⟨b', hmerge', htwin'⟩ := Action.on_twin htwin (adds_mergeAll type [item]) hmerge
  rw [htwin.content_eq] at hindexed hvacant
  -- the names of the index have no text for this id, except those of the item
  have hstored := hmerged.stored_item htype hempty
    (Attributes.decode?_encode item.fields_perm hexact.readable)
    fun name hname => hvacant name (hindexed name hname)
  have hget := c.on_get htype item.id m'
  rw [hstored] at hget
  obtain ⟨_, hget', -⟩ := Action.on_twin htwin' (adds_get type item.id) hget
  exact ⟨b', hmerge', congrArg Prod.fst hget'⟩

/-- A host with the least and the greatest integer, and without disks. -/
def limitsHost : Entity :=
  let limits : List Json :=
    [.number (.integer (-2 ^ 63)), .number (.integer (2 ^ 64 - 1)), .string "\"\n"]
  (({ id := "b" } : Entity).withAttribute "limits" (.array limits)).withRelationship "disks" []

/-- The entity has the least and the greatest whole numbers, and no other ones. -/
theorem exact_limitsHost : limitsHost.attributes.Exact := by
  have hlist : limitsHost.attributes.toList = [("limits", .array [.number (.integer (-2 ^ 63)),
    .number (.integer (2 ^ 64 - 1)), .string "\"\n"])] := rfl
  constructor
  · rw [Attributes.depth, hlist]
    decide
  · rw [hlist]
    exact ⟨⟨trivial, trivial, trivial, trivial⟩, trivial⟩
  · rw [hlist]
    exact ⟨⟨⟨by decide, by decide⟩, ⟨by decide, by decide⟩, trivial, trivial⟩, trivial⟩

/-- The host is merged beside another one that has disks. -/
theorem get_merge_of_vacant_limitsHost : ∃ b b',
    Action.on Backing.serve ((mk "fleetcache").writer.merge "host" limitsHost.listed) b =
      (.ok (), b') ∧
    (Action.on Backing.serve ((mk "fleetcache").reader.get "host" "b") b').1 =
      .ok (some limitsHost) := by
  have hempty : (mk "fleetcache").Reached Set.univ [] (.memory {}) := .fresh (.inl rfl)
  have hnamed : ∀ write ∈ [Write.merge "host" [(diskHost "disks").listed]],
      write.Named Set.univ := by
    simp [Write.Named]
  have hreached := hempty.performAll hnamed
  refine ⟨_, (get_merge_of_vacant hreached (by decide) exact_limitsHost (by decide) ?_ ?_).1⟩
  · have hall : ∀ name ∈ ((Action.on Backing.serve (Write.performAll (mk "fleetcache").writer
        [.merge "host" [(diskHost "disks").listed]]) (.memory {})).2.content.sets
          ((mk "fleetcache").indexKey "host")).toList, ':' ∉ name.toList := by decide +kernel
    exact fun name hname => hall name (Std.ExtTreeSet.mem_toList.2 hname)
  · intro name hname
    have hdisks : ∀ name ∈ (diskHost "disks").relationships, ':' ∉ name.toList := by
      simp [diskHost, Entity.withRelationship, Entity.withAttribute]
    show (putEntries ∅ ((mk "fleetcache").entries "host" (diskHost "disks").listed))[
      (mk "fleetcache").relationshipKey "host" "b" name]? = none
    rw [getElem?_relationshipKey_putEntries (mk "fleetcache") separable_colonFree (by decide) _
      hdisks "b" hname, if_neg (by decide), Std.ExtTreeMap.getElem?_empty]

end KeyValueCache

end EntityCache
