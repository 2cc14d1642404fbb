import EntityCache.Entity.Basic
import Mathlib.Data.String.Basic

/-!
# Maps, sets and lists of strings

What the maps and sets of an entity hold after they have been built from lists: a map is rebuilt
from its list, putting entries one after another leaves the last entry of each key, and `distinct`
keeps every string of a list once.
-/

namespace EntityCache

/-! ## Maps and sets from their lists -/

/-- A map is rebuilt from any list of its entries. -/
theorem ofList_eq_of_mem_iff {β : Type} {l : List (String × β)} {t : Std.ExtTreeMap String β}
    (hdistinct : l.Pairwise fun a b => ¬compare a.1 b.1 = .eq)
    (h : ∀ k v, (k, v) ∈ l ↔ t[k]? = some v) : Std.ExtTreeMap.ofList l = t := by
  apply Std.ExtTreeMap.ext_getElem?
  intro k
  cases hk : t[k]? with
  | some v =>
    exact Std.ExtTreeMap.getElem?_ofList_of_mem Std.ReflCmp.compare_self hdistinct ((h k v).2 hk)
  | none =>
    apply Std.ExtTreeMap.getElem?_ofList_of_contains_eq_false
    rw [List.contains_eq_mem, decide_eq_false_iff_not]
    intro hmem
    obtain ⟨⟨k', v⟩, hv, rfl⟩ := List.mem_map.1 hmem
    rw [(h k' v).1 hv] at hk
    exact Option.some_ne_none v hk

/-- What is given for the strings of a list makes a map. -/
theorem exists_map {β : Type} (keys : List String) (f : String → Option β) :
    ∃ t : Std.ExtTreeMap String β, ∀ k : String, t[k]? = if k ∈ keys then f k else none := by
  -- one key more is put in place if it has a value
  induction keys with
  | nil => exact ⟨∅, by simp⟩
  | cons key keys ih =>
    obtain ⟨t, ht⟩ := ih
    cases hkey : f key with
    | none =>
      refine ⟨t, fun k => ?_⟩
      rw [ht]
      by_cases hk : k = key
      · simp [hk, hkey]
      · simp [hk]
    | some v =>
      refine ⟨t.insert key v, fun k => ?_⟩
      simp only [Std.ExtTreeMap.getElem?_insert, ht, compare_eq_iff_eq]
      by_cases hk : k = key
      · simp [hk, hkey]
      · simp [hk, Ne.symm hk]

/-! ## The last entry of a key -/

section LastEntry

variable {α β : Type} [BEq α] {k : α} {xs ys : List (α × β)}

/-- The value of the last entry of a key. -/
def lastEntry (entries : List (α × β)) (k : α) : Option β :=
  (entries.reverse.find? (·.1 == k)).map (·.2)

/-- The last entry of two lists is that of the second, if it has one. -/
theorem lastEntry_append : lastEntry (xs ++ ys) k = (lastEntry ys k).or (lastEntry xs k) := by
  rw [lastEntry, List.reverse_append, List.find?_append, lastEntry, lastEntry]
  cases ys.reverse.find? (·.1 == k) <;> rfl

/-- An entry counts if none after it has the same key. -/
theorem lastEntry_cons (entry : α × β) :
    lastEntry (entry :: xs) k =
      (lastEntry xs k).or (if entry.1 == k then some entry.2 else none) := by
  rw [← List.singleton_append, lastEntry_append]
  congr 1
  by_cases hk : entry.1 == k <;> simp [lastEntry, hk]

/-- The last entry is one of the list. -/
theorem mem_of_lastEntry [LawfulBEq α] {v : β} (h : lastEntry xs k = some v) : (k, v) ∈ xs := by
  obtain ⟨⟨k', v'⟩, hfind, rfl⟩ := Option.map_eq_some_iff.1 h
  obtain rfl : k' = k := LawfulBEq.eq_of_beq (List.find?_some hfind :)
  exact List.mem_reverse.1 (List.mem_of_find?_eq_some hfind)

/-- A key with an entry has a last one. -/
theorem exists_lastEntry_of_mem [LawfulBEq α] {v : β} (h : (k, v) ∈ xs) :
    ∃ w, lastEntry xs k = some w := by
  induction xs with
  | nil => cases h
  | cons entry xs ih =>
    rw [lastEntry_cons]
    rcases List.mem_cons.1 h with rfl | h
    · cases lastEntry xs k <;> simp
    · obtain ⟨w, hw⟩ := ih h
      exact ⟨w, by rw [hw, Option.some_or]⟩

/-- Only the entries of a key matter to its last one. -/
theorem lastEntry_filter [LawfulBEq α] {p : α × β → Bool} (h : ∀ x ∈ xs, x.1 = k → p x) :
    lastEntry (xs.filter p) k = lastEntry xs k := by
  induction xs with
  | nil => rfl
  | cons entry xs ih =>
    obtain ⟨hentry, hxs⟩ := List.forall_mem_cons.1 h
    by_cases hp : p entry
    · rw [List.filter_cons_of_pos hp, lastEntry_cons, lastEntry_cons, ih hxs]
    · have hk : ¬entry.1 == k := fun hk => hp (hentry (LawfulBEq.eq_of_beq hk))
      rw [List.filter_cons_of_neg hp, lastEntry_cons, ih hxs, if_neg hk, Option.or_none]

/-- Keys may be renamed as long as different keys stay different. -/
theorem lastEntry_map {γ : Type} [LawfulBEq α] [BEq γ] [LawfulBEq γ] {f : α → γ}
    (hf : Function.Injective f) :
    lastEntry (xs.map fun x => (f x.1, x.2)) (f k) = lastEntry xs k := by
  induction xs with
  | nil => rfl
  | cons entry xs ih =>
    have hentry : (f entry.1 == f k) = (entry.1 == k) := by
      rw [Bool.eq_iff_iff, beq_iff_eq, beq_iff_eq, hf.eq_iff]
    rw [List.map_cons, lastEntry_cons, lastEntry_cons, ih, hentry]

end LastEntry

/-! ## Entries one after another -/

section Entries

variable {β : Type} {k : String} {v : β} {entries : List (String × β)}

/-- A map after entries have been put into it one after another. -/
def putEntries (t : Std.ExtTreeMap String β) (entries : List (String × β)) :
    Std.ExtTreeMap String β :=
  entries.foldl (fun t entry => t.insert entry.1 entry.2) t

/-- Entries of two lists are put one list after the other. -/
theorem putEntries_append (t : Std.ExtTreeMap String β) (first second : List (String × β)) :
    putEntries t (first ++ second) = putEntries (putEntries t first) second :=
  List.foldl_append

/-- A key has the value of its last entry, or the one that it had. -/
theorem getElem?_putEntries_eq (t : Std.ExtTreeMap String β) :
    (putEntries t entries)[k]? = (lastEntry entries k).or t[k]? := by
  induction entries generalizing t with
  | nil => rfl
  | cons entry entries ih =>
    rw [putEntries, List.foldl_cons, ← putEntries, ih, lastEntry_cons, Option.or_assoc,
      Std.ExtTreeMap.getElem?_insert]
    by_cases hk : entry.1 = k <;> simp [hk]

/-- A map from a list has the last entry of every key. -/
theorem getElem?_ofList : (Std.ExtTreeMap.ofList entries)[k]? = lastEntry entries k := by
  rw [Std.ExtTreeMap.ofList_eq_foldl, ← putEntries, getElem?_putEntries_eq,
    Std.ExtTreeMap.getElem?_empty, Option.or_none]

/-- Entries of other keys leave the value of a key as it is. -/
theorem getElem?_putEntries_of_notMem (t : Std.ExtTreeMap String β)
    (h : k ∉ entries.map (·.1)) : (putEntries t entries)[k]? = t[k]? := by
  induction entries generalizing t with
  | nil => rfl
  | cons entry entries ih =>
    simp only [List.map_cons, List.mem_cons, not_or] at h
    rw [putEntries, List.foldl_cons, ← putEntries, ih _ h.2, Std.ExtTreeMap.getElem?_insert,
      if_neg fun heq => h.1 (compare_eq_iff_eq.1 heq).symm]

/-- An entry is there afterwards if all entries of its key agree. -/
theorem getElem?_putEntries_of_mem (t : Std.ExtTreeMap String β) (h : (k, v) ∈ entries)
    (hunique : ∀ w, (k, w) ∈ entries → w = v) : (putEntries t entries)[k]? = some v := by
  induction entries generalizing t with
  | nil => simp at h
  | cons entry entries ih =>
    rw [putEntries, List.foldl_cons, ← putEntries]
    by_cases hrest : (k, v) ∈ entries
    · exact ih _ hrest fun w hw => hunique w (List.mem_cons_of_mem _ hw)
    · -- no later entry has the key, so the first one stands
      have hentry : entry = (k, v) := by
        rcases List.mem_cons.1 h with h | h
        · exact h.symm
        · exact absurd h hrest
      have hnotMem : k ∉ entries.map (·.1) := by
        intro hmem
        obtain ⟨⟨k', w⟩, hw, rfl⟩ := List.mem_map.1 hmem
        exact hrest (hunique w (List.mem_cons_of_mem _ hw) ▸ hw)
      rw [getElem?_putEntries_of_notMem _ hnotMem, hentry, Std.ExtTreeMap.getElem?_insert_self]

/-- What is there afterwards is one of the entries, or was there before. -/
theorem mem_or_of_getElem?_putEntries {t : Std.ExtTreeMap String β}
    (h : (putEntries t entries)[k]? = some v) : (k, v) ∈ entries ∨ t[k]? = some v := by
  induction entries generalizing t with
  | nil => exact .inr h
  | cons entry entries ih =>
    rcases ih h with hmem | hbefore
    · exact .inl (List.mem_cons_of_mem _ hmem)
    · rw [Std.ExtTreeMap.getElem?_insert] at hbefore
      split at hbefore
      case isTrue hk =>
        cases hbefore
        exact .inl (by rw [← compare_eq_iff_eq.1 hk]; exact List.mem_cons_self)
      case isFalse => exact .inr hbefore

/-- Putting one map over another gives its values where it has any. -/
theorem Entity.getElem?_putAll (earlier later : Std.ExtTreeMap String β) :
    (putAll earlier later)[k]? = later[k]?.or earlier[k]? := by
  have hputAll : putAll earlier later = putEntries earlier later.toList :=
    Std.ExtTreeMap.foldl_eq_foldl_toList
  rw [hputAll]
  -- a key of the later map is put last, and any other is not put at all
  cases hk : later[k]? with
  | some v =>
    rw [Option.some_or]
    apply getElem?_putEntries_of_mem _ (Std.ExtTreeMap.mem_toList_iff_getElem?_eq_some.2 hk)
    intro w hw
    rw [Std.ExtTreeMap.mem_toList_iff_getElem?_eq_some, hk] at hw
    exact (Option.some.inj hw).symm
  | none =>
    rw [Option.none_or]
    apply getElem?_putEntries_of_notMem
    intro hmem
    obtain ⟨⟨k', v⟩, hv, rfl⟩ := List.mem_map.1 hmem
    rw [Std.ExtTreeMap.mem_toList_iff_getElem?_eq_some, hk] at hv
    exact absurd hv (by simp)

end Entries

/-! ## Distinct strings -/

/-- What is kept is in the list and has not been seen. -/
theorem distinct.mem_go {seen : Names} {ids : List String} {x : String} :
    x ∈ distinct.go seen ids ↔ x ∈ ids ∧ x ∉ seen := by
  -- an id that has been kept counts as seen for the rest
  induction ids generalizing seen with
  | nil => simp [distinct.go]
  | cons id rest ih =>
    unfold distinct.go
    by_cases hseen : id ∈ seen
    · rw [if_pos hseen, ih, List.mem_cons]
      constructor
      · exact fun h => ⟨.inr h.1, h.2⟩
      · rintro ⟨rfl | h, hx⟩
        · exact absurd hseen hx
        · exact ⟨h, hx⟩
    · rw [if_neg hseen, List.mem_cons, ih, List.mem_cons, Std.ExtTreeSet.mem_insert,
        compare_eq_iff_eq]
      by_cases hx : x = id
      · subst hx
        simp [hseen]
      · simp [hx, Ne.symm hx]

/-- `distinct` keeps the strings of a list. -/
@[simp] theorem mem_distinct {ids : List String} {x : String} : x ∈ distinct ids ↔ x ∈ ids := by
  simp [distinct, distinct.mem_go]

/-- `distinct` keeps every string once. -/
theorem nodup_distinct (ids : List String) : (distinct ids).Nodup := by
  have hgo (seen : Names) : (distinct.go seen ids).Nodup := by
    induction ids generalizing seen with
    | nil => exact List.nodup_nil
    | cons id rest ih =>
      unfold distinct.go
      split
      · exact ih seen
      · refine List.nodup_cons.2 ⟨?_, ih _⟩
        simp [distinct.mem_go]
  exact hgo ∅

/-- A list without repetitions is left alone. -/
theorem distinct_eq_self {ids : List String} (h : ids.Nodup) : distinct ids = ids := by
  have hgo (seen : Names) (hseen : ∀ id ∈ ids, id ∉ seen) : distinct.go seen ids = ids := by
    induction ids generalizing seen with
    | nil => rfl
    | cons id rest ih =>
      obtain ⟨hid, hrest⟩ := List.nodup_cons.1 h
      rw [distinct.go, if_neg (hseen id (by simp)), ih hrest]
      intro other hother
      rw [Std.ExtTreeSet.mem_insert, compare_eq_iff_eq, not_or]
      exact ⟨fun heq => hid (heq ▸ hother), hseen other (by simp [hother])⟩
  exact hgo ∅ (by simp)

/-- Something of every list with elements is kept. -/
theorem distinct_eq_nil {ids : List String} : distinct ids = [] ↔ ids = [] := by
  simp only [List.eq_nil_iff_forall_not_mem, mem_distinct]

/-- Elements seen before are left out, and the others keep their order. -/
theorem distinct.go_eq_filter (seen : Names) (ids : List String) :
    distinct.go seen ids = (distinct ids).filter (· ∉ seen) := by
  -- both sides drop what has been seen; the order of the tests does not matter
  induction ids generalizing seen with
  | nil => rfl
  | cons id rest ih =>
    have hcons : distinct (id :: rest) = id :: distinct.go ((∅ : Names).insert id) rest := by
      rw [distinct, distinct.go, if_neg (by simp)]
    rw [distinct.go, hcons, ih (Std.ExtTreeSet.insert ∅ id), ih seen, ih (seen.insert id)]
    split
    case isTrue hseen =>
      rw [List.filter_cons_of_neg (by simpa using hseen), List.filter_filter]
      refine List.filter_congr fun other _ => ?_
      by_cases hother : other = id
      · simp [hother, hseen]
      · simp [Ne.symm hother]
    case isFalse hseen =>
      rw [List.filter_cons_of_pos (by simpa using hseen), List.filter_filter]
      congr 1
      refine List.filter_congr fun other _ => ?_
      simp [Bool.and_comm]

/-- The first string is kept, and left out of what follows. -/
theorem distinct_cons (id : String) (rest : List String) :
    distinct (id :: rest) = id :: (distinct rest).filter (· ≠ id) := by
  rw [distinct, distinct.go, if_neg (by simp), distinct.go_eq_filter]
  congr 1
  refine List.filter_congr fun other _ => ?_
  simp [@eq_comm _ other]

/-- Of two lists after each other, the second adds what the first does not have. -/
theorem distinct_append (xs ys : List String) :
    distinct (xs ++ ys) = distinct xs ++ (distinct ys).filter (· ∉ xs) := by
  induction xs with
  | nil => simp [distinct_eq_nil.2 rfl]
  | cons x xs ih =>
    rw [List.cons_append, distinct_cons, ih, distinct_cons, List.filter_append, List.cons_append,
      List.filter_filter]
    congr 2
    refine List.filter_congr fun other _ => ?_
    simp

/-- Strings may be left out before or after. -/
theorem distinct_filter (p : String → Bool) (ids : List String) :
    distinct (ids.filter p) = (distinct ids).filter p := by
  induction ids with
  | nil => rfl
  | cons id rest ih =>
    rw [distinct_cons, List.filter_cons, List.filter_cons]
    split
    case isTrue hid =>
      rw [distinct_cons, ih, List.filter_filter, List.filter_filter]
      congr 1
      exact List.filter_congr fun other _ => Bool.and_comm ..
    case isFalse hid =>
      rw [ih, List.filter_filter]
      refine List.filter_congr fun other _ => ?_
      by_cases hother : other = id
      · simp [hother, hid]
      · simp [hother]

/-- Repetitions may be left out of a part first. -/
theorem distinct_nested (xs ys zs : List String) :
    distinct (xs ++ distinct ys ++ zs) = distinct (xs ++ ys ++ zs) := by
  rw [distinct_append, distinct_append, distinct_eq_self (nodup_distinct ys), ← distinct_append,
    distinct_append (xs ++ ys)]
  simp only [List.mem_append, mem_distinct]

/-- `distinct` keeps the strings in the order in which they occur first. -/
theorem pairwise_idxOf_distinct (ids : List String) :
    (distinct ids).Pairwise fun a b => ids.idxOf a < ids.idxOf b := by
  induction ids with
  | nil => exact .nil
  | cons id rest ih =>
    rw [distinct_cons, List.pairwise_cons]
    constructor
    · intro other hother
      have hne : other ≠ id := by simpa using (List.mem_filter.1 hother).2
      rw [List.idxOf_cons_self, List.idxOf_cons_ne _ hne.symm]
      exact Nat.succ_pos _
    · refine (ih.filter _).imp_of_mem fun ha hb hlt => ?_
      have hne {other : String} (h : other ∈ (distinct rest).filter (· ≠ id)) : other ≠ id := by
        simpa using (List.mem_filter.1 h).2
      rw [List.idxOf_cons_ne _ (hne ha).symm, List.idxOf_cons_ne _ (hne hb).symm]
      exact Nat.succ_lt_succ hlt

end EntityCache
