import EntityCache.Proofs.Entity.Maps
import EntityCache.Store.Memory
import Mathlib.Tactic.Tauto

/-!
# What requests leave in a store in memory

A store in memory is seen through two observers: the string of a key, and the set of a key
(`Memory.setOf`), for which a missing set and an empty one are the same.  Every request changes them
in a way that does not depend on how the maps are built; this module has one lemma for each observer
and each request that writes.
-/

namespace EntityCache

namespace Store

namespace Memory

variable {m : Memory} {key k x : String}

/-- The set of a key, empty if there is none. -/
def setOf (m : Memory) (key : String) : Names := m.sets.getD key ∅

/-- The members that a store answers with are those of the set. -/
theorem mem_members : x ∈ m.members key ↔ x ∈ m.setOf key := Std.ExtTreeSet.mem_toList

/-- Members are answered in increasing order. -/
theorem members_sorted (m : Memory) (key : String) : (m.members key).Pairwise (· < ·) :=
  Std.ExtTreeSet.ordered_toList.imp compare_lt_iff_lt.1

theorem setOf_insert (sets : Std.ExtTreeMap String Names) (strings : Std.ExtTreeMap String String)
    (set : Names) : (⟨strings, sets.insert key set⟩ : Memory).setOf k =
      if key = k then set else sets.getD k ∅ := by
  simp only [setOf, Std.ExtTreeMap.getD_insert, compare_eq_iff_eq]

/-! ## Strings -/

/-- Strings are put one after another, and no set changes. -/
theorem answer_mset (entries : List (String × String)) (m : Memory) :
    (m.answer (.mset entries)).2 = ⟨putEntries m.strings entries, m.sets⟩ := by
  show entries.foldl (fun m entry => m.put entry.1 entry.2) m = _
  induction entries generalizing m with
  | nil => rfl
  | cons entry entries ih =>
    rw [List.foldl_cons, ih]
    rfl

/-! ## Sets -/

/-- After an addition, the members are those of before and the new ones. -/
theorem mem_addAll {members : List String} {set : Names} :
    x ∈ (addAll members set).2 ↔ x ∈ set ∨ x ∈ members := by
  induction members generalizing set with
  | nil => simp [addAll]
  | cons member rest ih =>
    simp only [addAll, ih, Std.ExtTreeSet.mem_insert, compare_eq_iff_eq, List.mem_cons]
    tauto

/-- After a removal, the members are those of before without the ones removed. -/
theorem mem_removeAll {members : List String} {set : Names} :
    x ∈ (removeAll members set).2 ↔ x ∈ set ∧ x ∉ members := by
  induction members generalizing set with
  | nil => simp [removeAll]
  | cons member rest ih =>
    simp only [removeAll, ih, Std.ExtTreeSet.mem_erase, ne_eq, compare_eq_iff_eq, List.mem_cons,
      not_or, @eq_comm _ member]
    tauto

/-- Adding members to a set changes no string. -/
theorem strings_sadd (members : List String) (m : Memory) :
    (m.answer (.sadd key members)).2.strings = m.strings := rfl

/-- Added members are in the set of their key, beside those that were there. -/
theorem mem_setOf_sadd {members : List String} :
    x ∈ (m.answer (.sadd key members)).2.setOf k ↔ x ∈ m.setOf k ∨ (k = key ∧ x ∈ members) := by
  show x ∈ (⟨m.strings, m.sets.insert key (addAll members (m.sets.getD key ∅)).2⟩ : Memory).setOf k
    ↔ _
  rw [setOf_insert]
  by_cases hk : key = k
  · subst hk
    rw [if_pos rfl, mem_addAll]
    simp [setOf]
  · rw [if_neg hk]
    simp [setOf, Ne.symm hk]

/-- Removing members from a set changes no string. -/
theorem strings_srem (members : List String) (m : Memory) :
    (m.answer (.srem key members)).2.strings = m.strings := by
  simp only [answer]
  split <;> rfl

/-- Removed members are no longer in the set of their key. -/
theorem mem_setOf_srem {members : List String} :
    x ∈ (m.answer (.srem key members)).2.setOf k ↔
      x ∈ m.setOf k ∧ ¬(k = key ∧ x ∈ members) := by
  simp only [answer]
  split
  case h_1 hnone =>
    -- nothing is in a set that is not there
    refine ⟨fun h => ⟨h, ?_⟩, And.left⟩
    rintro ⟨rfl, -⟩
    simp [setOf, Std.ExtTreeMap.getD_eq_getD_getElem?, hnone] at h
  case h_2 set hset =>
    -- a set that runs empty is taken away, which no reader of sets sees
    have hget : m.sets.getD key ∅ = set := by
      rw [Std.ExtTreeMap.getD_eq_getD_getElem?, hset, Option.getD_some]
    have hsetOf : (⟨m.strings, if (removeAll members set).2.isEmpty then m.sets.erase key
        else m.sets.insert key (removeAll members set).2⟩ : Memory).setOf k =
        if key = k then (removeAll members set).2 else m.setOf k := by
      split
      case isTrue hempty =>
        simp only [setOf, Std.ExtTreeMap.getD_erase, compare_eq_iff_eq]
        split
        · exact (Std.ExtTreeSet.isEmpty_iff.1 hempty).symm
        · rfl
      case isFalse => exact setOf_insert _ _ _
    show x ∈ (⟨m.strings, _⟩ : Memory).setOf k ↔ _
    rw [hsetOf]
    by_cases hk : key = k
    · subst hk
      rw [if_pos rfl, mem_removeAll]
      simp [setOf, hget]
    · rw [if_neg hk]
      simp [Ne.symm hk]

/-! ## Keys -/

/-- Removed keys have no string. -/
theorem getElem?_strings_del {keys : List String} :
    (m.answer (.del keys)).2.strings[k]? = if k ∈ keys then none else m.strings[k]? := by
  show (dropAll keys m).2.strings[k]? = _
  induction keys generalizing m with
  | nil => simp [dropAll]
  | cons key keys ih =>
    simp only [dropAll, ih, drop, Std.ExtTreeMap.getElem?_erase, compare_eq_iff_eq, List.mem_cons]
    by_cases hk : k = key
    · simp [hk]
    · simp [hk, Ne.symm hk]

/-- Removed keys have no set. -/
theorem setOf_del {keys : List String} :
    (m.answer (.del keys)).2.setOf k = if k ∈ keys then ∅ else m.setOf k := by
  show (dropAll keys m).2.setOf k = _
  induction keys generalizing m with
  | nil => simp [dropAll]
  | cons key keys ih =>
    have hdrop : (m.drop key).setOf k = if key = k then ∅ else m.setOf k := by
      simp only [drop, setOf, Std.ExtTreeMap.getD_erase, compare_eq_iff_eq]
    simp only [dropAll, ih, hdrop, List.mem_cons]
    by_cases hk : k = key
    · simp [hk]
    · simp [hk, Ne.symm hk]

end Memory

end Store

end EntityCache
