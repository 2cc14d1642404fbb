import EntityCache.Proofs.Store.Content
import EntityCache.Store.Database
import Mathlib.Data.List.Sort
import Mathlib.Data.String.Basic

/-!
# What the tables of a database hold

The rows of sound tables stand for a `Content`: string keys are unique and no row of a set stands
twice.  One lemma for each statement says what it yields and leaves in terms of the content.  From
these and the `Sequential` operations follows what a request does that was cut into chunks: it is
answered from the content, and the chunks cannot be seen (`Database.answer_eq`).
-/

namespace EntityCache

namespace Store

namespace Tables

variable {t : Tables} {rows : List (String × String)} {entry row : String × String}
  {key k v x : String} {keys members : List String}

/-! ## The content of the rows -/

/-- The value in the first row of a key. -/
def valueOf (rows : List (String × String)) (k : String) : Option String :=
  (rows.find? (·.1 == k)).map (·.2)

/-- The members in the rows of a key. -/
def membersOf (rows : List (String × String)) (k : String) : Names :=
  .ofList ((rows.filter (·.1 == k)).map (·.2))

/-- What the tables hold. -/
def content (t : Tables) : Content := ⟨valueOf t.strings, membersOf t.sets⟩

/-- The keys of the string rows are unique, as are the set rows. -/
structure Sound (t : Tables) : Prop where
  strings : (t.strings.map (·.1)).Nodup
  sets : t.sets.Nodup

theorem sound_empty : ({} : Tables).Sound := ⟨List.nodup_nil, List.nodup_nil⟩

theorem content_empty : ({} : Tables).content = .empty := rfl

theorem valueOf_isSome : (valueOf rows k).isSome ↔ k ∈ rows.map (·.1) := by
  simp [valueOf]

/-- Where no key comes twice, its value is that of its row. -/
theorem valueOf_eq_some (h : (rows.map (·.1)).Nodup) : valueOf rows k = some v ↔ (k, v) ∈ rows := by
  constructor
  · intro hv
    obtain ⟨row, hrow, rfl⟩ := Option.map_eq_some_iff.1 hv
    have hk : row.1 = k := by simpa using List.find?_some hrow
    exact hk ▸ List.mem_of_find?_eq_some hrow
  · intro hmem
    obtain ⟨w, hw⟩ : ∃ w, valueOf rows k = some w :=
      Option.isSome_iff_exists.1 (valueOf_isSome.2 (List.mem_map_of_mem hmem))
    obtain ⟨row, hrow, rfl⟩ := Option.map_eq_some_iff.1 hw
    -- the row that is found has the key, and no other row has it
    have hk : row.1 = k := by simpa using List.find?_some hrow
    have hsame : row = (k, v) :=
      List.inj_on_of_nodup_map h (List.mem_of_find?_eq_some hrow) hmem hk
    rw [hw, hsame]

/-- The members of a key are those of its rows. -/
theorem mem_membersOf : x ∈ membersOf rows k ↔ (k, x) ∈ rows := by
  simp [membersOf]

/-- The keys that the tables know are those with a string or a member. -/
theorem content_has : t.content.has k ↔ k ∈ (t.strings ++ t.sets).map (·.1) := by
  have hmembers : (membersOf t.sets k).isEmpty = false ↔ k ∈ t.sets.map (·.1) := by
    rw [Std.ExtTreeSet.isEmpty_eq_false_iff, Std.ExtTreeSet.eq_empty_iff_forall_not_mem]
    simp [mem_membersOf]
  rw [Content.has, Bool.or_eq_true, Bool.not_eq_true', List.map_append, List.mem_append]
  exact or_congr valueOf_isSome hmembers

/-! ## Statements on strings -/

/-- An upserted row is the value of its key. -/
theorem valueOf_upsert :
    valueOf (upsert rows entry) = Function.update (valueOf rows) entry.1 (some entry.2) := by
  funext k
  by_cases hany : rows.any (·.1 == entry.1)
  · -- the row of the key is overwritten in its place
    rw [valueOf, upsert, if_pos hany, List.find?_map]
    have hkeys : ((·.1 == k) ∘ fun row => if row.1 == entry.1 then entry else row) =
        fun row : String × String => row.1 == k := by
      funext row
      by_cases hrow : row.1 = entry.1 <;> simp [hrow]
    rw [hkeys]
    by_cases hk : k = entry.1
    · subst hk
      obtain ⟨row, hrow⟩ : ∃ row, rows.find? (·.1 == entry.1) = some row := by
        rw [← Option.isSome_iff_exists, List.find?_isSome]
        simpa using hany
      have hrowKey : row.1 = entry.1 := by simpa using List.find?_some hrow
      simp [hrow, hrowKey]
    · rw [Function.update_of_ne hk, valueOf, Option.map_map]
      apply Option.map_congr
      intro row hrow
      have hrowKey : row.1 = k := by simpa using List.find?_some hrow
      simp [hrowKey, hk]
  · rw [valueOf, upsert, if_neg hany, List.find?_append]
    by_cases hk : k = entry.1
    · subst hk
      have hnone : rows.find? (·.1 == entry.1) = none := by
        rw [List.find?_eq_none]
        simpa only [List.any_eq_true, not_exists, not_and] using hany
      simp [hnone]
    · simp [valueOf, Function.update_of_ne hk, Ne.symm hk]

/-- A row that is put in place makes no key come twice. -/
theorem nodup_upsert (h : (rows.map (·.1)).Nodup) : ((upsert rows entry).map (·.1)).Nodup := by
  by_cases hany : rows.any (·.1 == entry.1)
  · have hkeys : (upsert rows entry).map (·.1) = rows.map (·.1) := by
      rw [upsert, if_pos hany, List.map_map]
      apply List.map_congr_left
      intro row _
      by_cases hrow : row.1 = entry.1 <;> simp [hrow]
    rw [hkeys]
    exact h
  · rw [upsert, if_neg hany, List.map_append]
    apply List.Nodup.append h (List.nodup_singleton _)
    simpa [List.disjoint_singleton] using hany

/-- The keys deleted have no value any more, and the others keep theirs. -/
theorem valueOf_deleteRows :
    valueOf (deleteRows (keys.contains ·.1) rows).2 =
      fun k => if k ∈ keys then none else valueOf rows k := by
  funext k
  rw [valueOf, deleteRows, List.find?_filter]
  by_cases hk : k ∈ keys
  · rw [if_pos hk, Option.map_eq_none_iff, List.find?_eq_none]
    rintro ⟨k', v⟩ -
    simp only [List.contains_eq_mem, Bool.not_eq_true', decide_eq_false_iff_not, beq_iff_eq,
      not_and, decide_eq_true_eq]
    rintro hnot rfl
    exact hnot hk
  · have hsame : (fun row : String × String => decide (!keys.contains row.1 ∧ row.1 == k)) =
        fun row => row.1 == k := by
      funext row
      by_cases hrow : row.1 = k <;> simp [hrow, hk]
    rw [if_neg hk, hsame, valueOf]

/-! ## Statements on sets -/

/-- The keys deleted have no members any more, and the others keep theirs. -/
theorem membersOf_deleteRows :
    membersOf (deleteRows (keys.contains ·.1) rows).2 =
      fun k => if k ∈ keys then ∅ else membersOf rows k := by
  funext k
  apply Std.ExtTreeSet.ext_mem
  intro x
  by_cases hk : k ∈ keys <;> simp [mem_membersOf, deleteRows, hk]

/-- Inserted rows are there afterwards, beside those that were there. -/
theorem mem_insertRows {new : List (String × String)} :
    row ∈ (insertRows new rows).2 ↔ row ∈ rows ∨ row ∈ new := by
  induction new generalizing rows with
  | nil => simp [insertRows]
  | cons first rest ih =>
    simp only [insertRows, List.contains_eq_mem, decide_eq_true_eq]
    split
    case isTrue hmem =>
      rw [ih, List.mem_cons]
      constructor
      · tauto
      · rintro (hrow | rfl | hrow)
        · exact .inl hrow
        · exact .inl hmem
        · exact .inr hrow
    case isFalse => rw [ih, List.mem_append, List.mem_singleton, List.mem_cons, or_assoc]

/-- Rows that are there already are not inserted again. -/
theorem nodup_insertRows {new : List (String × String)} (h : rows.Nodup) :
    (insertRows new rows).2.Nodup := by
  induction new generalizing rows with
  | nil => exact h
  | cons first rest ih =>
    simp only [insertRows, List.contains_eq_mem, decide_eq_true_eq]
    split
    case isTrue => exact ih h
    case isFalse hmem =>
      apply ih
      exact h.append (List.nodup_singleton _) (by simpa [List.disjoint_singleton] using hmem)

/-- The inserted rows of a set are the distinct members that were not there. -/
theorem count_insertRows :
    (insertRows (members.map (key, ·)) rows).1 =
      tally (fun x => decide ((key, x) ∉ rows)) members := by
  apply loop_eq_tally (fun members rows => (insertRows (members.map (key, ·)) rows).1)
    (fun rows x => decide ((key, x) ∉ rows))
    (fun x rows => if (key, x) ∈ rows then rows else rows ++ [(key, x)])
  · intro rows
    rfl
  · intro x rest rows
    by_cases hx : (key, x) ∈ rows <;> simp [insertRows, hx, Nat.add_comm]
  · intro x y rows
    by_cases hx : (key, x) ∈ rows
    · by_cases hy : y = x <;> simp [hx, hy]
    · simp [hx]

/-- Rows that differ for one key differ in its members. -/
theorem membersOf_eq_update {rows' : List (String × String)} (key : String) (set : Names)
    (h : ∀ k x, (k, x) ∈ rows' ↔ if k = key then x ∈ set else (k, x) ∈ rows) :
    membersOf rows' = Function.update (membersOf rows) key set := by
  funext k
  apply Std.ExtTreeSet.ext_mem
  intro x
  rw [mem_membersOf, h]
  by_cases hk : k = key
  · subst hk
    simp
  · simp [hk, mem_membersOf]

/-- The members of a set are selected in order. -/
theorem selectMembers_eq (h : t.sets.Nodup) :
    ((t.sets.filter (·.1 == key)).mergeSort fun a b => (compare a.2 b.2).isLE).map (·.2) =
      (t.content.sets key).toList := by
  let sorted := (t.sets.filter (·.1 == key)).mergeSort fun a b => (compare a.2 b.2).isLE
  have hmem (row : String × String) : row ∈ sorted ↔ row ∈ t.sets ∧ row.1 = key := by
    simp [sorted]
  have hcompare (a b : String) : (compare a b).isLE ↔ a ≤ b :=
    Ordering.isLE_iff_ne_gt.trans compare_le_iff_le
  have hle : (sorted.map (·.2)).Pairwise (· ≤ ·) := by
    rw [List.pairwise_map]
    apply (List.pairwise_mergeSort (fun a b c => Std.TransCmp.isLE_trans) _ _).imp
    · intro a b
      exact (hcompare _ _).1
    · intro a b
      simpa only [Bool.or_eq_true, hcompare] using le_total a.2 b.2
  have hnodup : (sorted.map (·.2)).Nodup := by
    apply List.Nodup.map_on
    · intro a ha b hb hab
      exact Prod.ext (((hmem a).1 ha).2.trans ((hmem b).1 hb).2.symm) hab
    · exact (List.mergeSort_perm _ _).nodup_iff.2 (h.filter _)
  -- rows of one key have different members, so sorting makes them increase
  have hlt : (sorted.map (·.2)).Pairwise (· < ·) :=
    hle.imp₂ (fun _ _ => lt_of_le_of_ne) hnodup
  apply hlt.eq_of_mem_iff (Std.ExtTreeSet.ordered_toList.imp compare_lt_iff_lt.1)
  intro x
  rw [Std.ExtTreeSet.mem_toList]
  show _ ↔ x ∈ membersOf t.sets key
  rw [mem_membersOf, List.mem_map]
  constructor
  · rintro ⟨⟨k, y⟩, hsorted, rfl⟩
    obtain ⟨hrow, rfl⟩ := (hmem _).1 hsorted
    exact hrow
  · intro hrow
    exact ⟨(key, x), (hmem _).2 ⟨hrow, rfl⟩, rfl⟩

/-! ## Several statements -/

theorem executeAll_append (first second : List Statement) :
    t.executeAll (first ++ second) =
      ((t.executeAll first).1 ++ ((t.executeAll first).2.executeAll second).1,
        ((t.executeAll first).2.executeAll second).2) := by
  induction first generalizing t with
  | nil => rfl
  | cons s rest ih =>
    simp only [List.cons_append, executeAll, ih]

/-- Statements that have been carried out on sound tables: `count` of their outcomes and the content
they leave are as wanted. -/
structure Meets (count : List Outcome → Nat) (ran : List Outcome × Tables)
    (wanted : Nat × Content) : Prop where
  count : count ran.1 = wanted.1
  content : ran.2.content = wanted.2
  sound : ran.2.Sound

/-- An operation that may be carried out in parts is carried out by the statements of the parts. -/
theorem meets_flatMap {α : Type} {op : List α → Content → Nat × Content}
    (hop : Content.Sequential op) (count : List Outcome → Nat) (hnil : count [] = 0)
    (happend : ∀ first second, count (first ++ second) = count first + count second)
    {statements : List α → List Statement}
    (hpart : ∀ {t : Tables}, t.Sound → ∀ part,
      Meets count (t.executeAll (statements part)) (op part t.content))
    (h : t.Sound) (parts : List (List α)) :
    Meets count (t.executeAll (parts.flatMap statements)) (op parts.flatten t.content) := by
  -- part by part, each on the tables that those before it have left
  induction parts generalizing t with
  | nil =>
    rw [List.flatten_nil, hop.nil]
    exact ⟨hnil, rfl, h⟩
  | cons part parts ih =>
    have hfirst := hpart h part
    have hrest := ih hfirst.sound
    rw [List.flatMap_cons, executeAll_append, List.flatten_cons, hop.append, ← hfirst.content,
      ← hfirst.count]
    refine ⟨?_, hrest.content, hrest.sound⟩
    rw [happend, hrest.count]

end Tables

namespace Database

open Tables

variable {t : Tables} {key : String}

/-! ## Requests -/

theorem counted_append (first second : List Outcome) :
    counted (first ++ second) = counted first + counted second := by
  induction first with
  | nil => simp [counted]
  | cons outcome first ih => cases outcome <;> simp [counted, ih, Nat.add_assoc]

theorem changed_append (first second : List Outcome) :
    changed (first ++ second) = changed first + changed second := by
  induction first with
  | nil => simp [changed]
  | cons outcome first ih => cases outcome <;> simp [changed, ih, Nat.add_assoc]

/-- The keys of one chunk are counted, and then deleted. -/
theorem meets_del (h : t.Sound) (keys : List String) :
    Meets counted (t.executeAll [.countKeys keys, .deleteStrings keys, .deleteSets keys])
      (t.content.remove keys) where
  count := by
    show (distinct (((t.strings ++ t.sets).map (·.1)).filter keys.contains)).length +
      (0 + (0 + 0)) = _
    rw [Nat.add_zero]
    apply length_eq_tally (nodup_distinct _)
    intro k
    rw [mem_distinct, List.mem_filter, content_has, and_comm]
    simp only [List.contains_eq_mem, decide_eq_true_eq]
  content := by
    show (⟨valueOf (deleteRows (keys.contains ·.1) t.strings).2,
      membersOf (deleteRows (keys.contains ·.1) t.sets).2⟩ : Content) = _
    rw [valueOf_deleteRows, membersOf_deleteRows]
    rfl
  sound := ⟨(List.filter_sublist.map _).nodup h.strings, h.sets.filter _⟩

/-- The members of one chunk are inserted. -/
theorem meets_sadd (key : String) (h : t.Sound) (members : List String) :
    Meets changed (t.executeAll [.insertMembers key members]) (t.content.add key members) where
  count := by
    show (insertRows (members.map (key, ·)) t.sets).1 + 0 = _
    rw [Nat.add_zero, count_insertRows]
    -- a row is new exactly if its member is
    apply tally_congr
    intro x _
    simp [content, mem_membersOf]
  content := by
    show (⟨valueOf t.strings, membersOf (insertRows (members.map (key, ·)) t.sets).2⟩ : Content) = _
    rw [membersOf_eq_update key (membersOf t.sets key ∪ .ofList members)]
    · rfl
    · intro k x
      rw [mem_insertRows]
      by_cases hk : k = key
      · subst hk
        simp [mem_membersOf]
      · simp [hk, Ne.symm hk]
  sound := ⟨h.strings, nodup_insertRows h.sets⟩

/-- The members of one chunk are deleted. -/
theorem meets_srem (key : String) (h : t.Sound) (members : List String) :
    Meets changed (t.executeAll [.deleteMembers key members]) (t.content.takeOut key members) where
  count := by
    let rows := t.sets.filter fun row => row.1 == key && members.contains row.2
    have hrows (row : String × String) :
        row ∈ rows ↔ row ∈ t.sets ∧ row.1 = key ∧ row.2 ∈ members := by simp [rows]
    show rows.length + 0 = _
    rw [Nat.add_zero, ← List.length_map (·.2)]
    apply length_eq_tally
    · apply List.Nodup.map_on _ (h.sets.filter _)
      intro a ha b hb hab
      exact Prod.ext (((hrows a).1 ha).2.1.trans ((hrows b).1 hb).2.1.symm) hab
    · intro x
      simp only [List.mem_map, hrows, Prod.exists, content, mem_membersOf, decide_eq_true_eq]
      constructor
      · rintro ⟨k, y, ⟨hrow, rfl, hy⟩, rfl⟩
        exact ⟨hy, hrow⟩
      · rintro ⟨hx, hrow⟩
        exact ⟨key, x, ⟨hrow, rfl, hx⟩, rfl⟩
  content := by
    show (⟨valueOf t.strings, membersOf (deleteRows _ t.sets).2⟩ : Content) = _
    rw [membersOf_eq_update key (membersOf t.sets key \ .ofList members)]
    · rfl
    · intro k x
      by_cases hk : k = key
      · subst hk
        simp [deleteRows, mem_membersOf]
      · simp [deleteRows, hk]
  sound := ⟨h.strings, h.sets.filter _⟩

/-- The rows of one chunk are upserted. -/
theorem meets_mset (h : t.Sound) (entries : List (String × String)) :
    Meets (fun _ => 0) (t.executeAll [.upsertStrings entries]) (0, t.content.put entries) := by
  have hupsert (rows : List (String × String)) (hrows : (rows.map (·.1)).Nodup) :
      valueOf (entries.foldl upsert rows) =
          entries.foldl (fun all (e : String × String) => Function.update all e.1 (some e.2))
            (valueOf rows) ∧
        ((entries.foldl upsert rows).map (·.1)).Nodup := by
    induction entries generalizing rows with
    | nil => exact ⟨rfl, hrows⟩
    | cons entry rest ih =>
      rw [List.foldl_cons, List.foldl_cons, ← valueOf_upsert]
      exact ih _ (nodup_upsert hrows)
  obtain ⟨hvalues, hkeys⟩ := hupsert t.strings h.strings
  exact ⟨rfl, Content.ext hvalues rfl, hkeys, h.sets⟩

/-- Chunks cut a list into pieces that make up the list. -/
theorem flatten_chunks {α : Type} (l : List α) : (chunks l).flatten = l := by
  fun_induction chunks l with
  | case1 => rfl
  | case2 x xs ih =>
    rw [List.flatten_cons, ih, List.cons_append, List.take_append_drop]

/-- Selecting changes nothing; the rows of all chunks are the rows of all keys. -/
theorem executeAll_selectStrings (parts : List (List String)) :
    (t.executeAll (parts.map .selectStrings)).2 = t ∧
      ∀ row, row ∈ selected (t.executeAll (parts.map .selectStrings)).1 ↔
        row ∈ t.strings ∧ row.1 ∈ parts.flatten := by
  induction parts with
  | nil => simp [executeAll, selected]
  | cons part parts ih =>
    refine ⟨ih.1, fun row => ?_⟩
    show row ∈ t.strings.filter _ ++ selected (t.executeAll (parts.map .selectStrings)).1 ↔ _
    rw [List.mem_append, ih.2, List.mem_filter, List.flatten_cons, List.mem_append]
    simp only [List.contains_eq_mem, decide_eq_true_eq]
    tauto

/-- A key that is asked for is found in the selected rows, whatever part it is in. -/
theorem getElem?_ofList_selected (h : t.Sound) {parts : List (List String)} {k : String}
    (hk : k ∈ parts.flatten) :
    (Std.ExtTreeMap.ofList (selected (t.executeAll (parts.map .selectStrings)).1) :
      Std.ExtTreeMap String String)[k]? = t.content.strings k := by
  have hrows := (executeAll_selectStrings (t := t) parts).2
  set rows := selected (t.executeAll (parts.map .selectStrings)).1
  rw [Std.ExtTreeMap.ofList_eq_foldl, ← putEntries]
  -- a key has one row at most, so its value is the one selected last
  cases hvalue : t.content.strings k with
  | some v =>
    have hmem : (k, v) ∈ t.strings := (valueOf_eq_some h.strings).1 hvalue
    apply getElem?_putEntries_of_mem _ ((hrows _).2 ⟨hmem, hk⟩)
    intro w hw
    have hother := (valueOf_eq_some h.strings).2 ((hrows _).1 hw).1
    exact Option.some.inj (hother.symm.trans hvalue)
  | none =>
    rw [getElem?_putEntries_of_notMem, Std.ExtTreeMap.getElem?_empty]
    intro hmem
    obtain ⟨⟨k', v⟩, hv, rfl⟩ := List.mem_map.1 hmem
    have hsome := (valueOf_eq_some h.strings).2 ((hrows _).1 hv).1
    exact Option.some_ne_none v (hsome.symm.trans hvalue)

/-- The statements that answer a request if its lists are cut by `cut`. -/
def planBy (cut : ∀ {α : Type}, List α → List (List α)) : Request → List Statement
  | .get key => [.selectString key]
  | .set key value => [.upsertStrings [(key, value)]]
  | .mget keys => (cut keys).map .selectStrings
  | .mset entries => (cut entries).map .upsertStrings
  | .del keys => (cut keys).flatMap fun c => [.countKeys c, .deleteStrings c, .deleteSets c]
  | .sadd key members => (cut members).map (.insertMembers key)
  | .srem key members => (cut members).map (.deleteMembers key)
  | .smembers key => [.selectMembers key]

/-- Requests are cut into statements by the chunks of the database. -/
theorem plan_eq (r : Request) : plan r = planBy chunks r := by cases r <;> rfl

/-- However its lists are cut, a request is answered from what the tables hold. -/
theorem planBy_eq {cut : ∀ {α : Type}, List α → List (List α)}
    (hcut : ∀ {α : Type} (l : List α), (cut l).flatten = l) (h : t.Sound) (r : Request) :
    answerOf r (t.executeAll (planBy cut r)).1 = (t.content.answer r).1 ∧
      (t.executeAll (planBy cut r)).2.content = (t.content.answer r).2 ∧
      (t.executeAll (planBy cut r)).2.Sound := by
  -- each request is cut in parts, which are carried out one after the other
  cases r with
  | get key =>
    refine ⟨?_, rfl, h⟩
    have hrows : selected (t.executeAll [.selectString key]).1 = t.strings.filter (·.1 == key) :=
      List.append_nil _
    show (selected (t.executeAll [.selectString key]).1).head?.map (·.2) = valueOf t.strings key
    rw [hrows, List.head?_filter, valueOf]
  | set key value =>
    have hset := meets_mset h [(key, value)]
    exact ⟨rfl, hset.content, hset.sound⟩
  | mget keys =>
    have hsame : (t.executeAll (planBy cut (.mget keys))).2 = t :=
      (executeAll_selectStrings (cut keys)).1
    refine ⟨?_, congrArg content hsame, hsame.symm ▸ h⟩
    apply List.map_congr_left
    intro k hk
    exact getElem?_ofList_selected h (by rwa [hcut])
  | mset entries =>
    have hmset := meets_flatMap Content.sequential_put (fun _ => 0) rfl (fun _ _ => rfl)
      (fun ht entries => meets_mset ht entries) h (cut entries)
    rw [hcut, ← List.map_eq_flatMap] at hmset
    exact ⟨rfl, hmset.content, hmset.sound⟩
  | del keys =>
    have hdel := meets_flatMap Content.sequential_remove counted rfl counted_append
      (fun ht keys => meets_del ht keys) h (cut keys)
    rw [hcut] at hdel
    exact ⟨hdel.count, hdel.content, hdel.sound⟩
  | sadd key members =>
    have hsadd := meets_flatMap (Content.sequential_add key) changed rfl changed_append
      (fun ht members => meets_sadd key ht members) h (cut members)
    rw [hcut, ← List.map_eq_flatMap] at hsadd
    exact ⟨hsadd.count, hsadd.content, hsadd.sound⟩
  | srem key members =>
    have hsrem := meets_flatMap (Content.sequential_takeOut key) changed rfl
      changed_append (fun ht members => meets_srem key ht members) h (cut members)
    rw [hcut, ← List.map_eq_flatMap] at hsrem
    exact ⟨hsrem.count, hsrem.content, hsrem.sound⟩
  | smembers key =>
    refine ⟨?_, rfl, h⟩
    show (List.mergeSort _ _ ++ []).map _ = _
    rw [List.append_nil]
    exact selectMembers_eq h.sets

/-- A request cut into chunks is answered from what the tables hold. -/
theorem answer_eq (h : t.Sound) (r : Request) :
    (answer r t).1 = (t.content.answer r).1 ∧
      (answer r t).2.content = (t.content.answer r).2 ∧ (answer r t).2.Sound := by
  rw [answer, plan_eq]
  exact planBy_eq flatten_chunks h r

end Database

end Store

end EntityCache
