import EntityCache.Proofs.Store.Agreement
import EntityCache.Proofs.Text.Bytes
import Mathlib.Data.Finset.Card
import Mathlib.Data.Finset.Dedup

/-!
# Requests that are cut into chunks have their effect as a whole

`Effect` says what a request on lists of any length, with any repetitions, answers and leaves: what
counts is counted once for each distinct string, and of several entries of a key the last one
stands.  A database has this effect although it works through the lists chunk by chunk, and although
the statements of a chunk find what those of the chunks before it have left; any other way to cut
the lists, and not to cut them at all, has the same effect (`Database.serve_effect`).  No statement
needs more parameters than a database takes (`Database.bindings_le`).
-/

namespace EntityCache

namespace Store

/-! ## What a request does as a whole -/

/-- The number of distinct strings that are meant, as the size of their set. -/
theorem tally_eq_card (p : String → Bool) (xs : List String) :
    tally p xs = {x ∈ xs.toFinset | p x}.card := by
  have hperm : ((distinct xs).filter p).toFinset = {x ∈ xs.toFinset | p x} := by
    ext x
    simp
  rw [tally, List.countP_eq_length_filter, ← hperm,
    List.toFinset_card_of_nodup ((nodup_distinct xs).filter p)]

namespace Content

variable {c : Content} {k : String}

/-- Every key that has an entry has the value of its last one, and the others are as they were. -/
theorem strings_put_eq (entries : List (String × String)) :
    (c.put entries).strings k = (lastEntry entries k).or (c.strings k) := by
  induction entries generalizing c with
  | nil => rfl
  | cons entry rest ih =>
    have hfirst : (c.put (entry :: rest)).strings k = ((c.put [entry]).put rest).strings k := rfl
    rw [hfirst, ih, lastEntry_cons, Option.or_assoc]
    by_cases hk : k = entry.1
    · simp [put, hk]
    · simp [put, hk, Ne.symm hk]

end Content

/-- What a request is to answer where the store holds `before`, and what the store is to hold
afterwards. -/
def Effect : (r : Request) → (before : Content) → r.Answer → (after : Content) → Prop
  | .get key, before, value, after => value = before.strings key ∧ after = before
  | .set key value, before, _, after =>
    after = { before with strings := Function.update before.strings key (some value) }
  | .mget keys, before, slots, after => slots = keys.map before.strings ∧ after = before
  | .mset entries, before, _, after =>
    (∀ k, after.strings k = (lastEntry entries k).or (before.strings k)) ∧
      after.sets = before.sets
  | .del keys, before, n, after =>
    n = {k ∈ keys.toFinset | (before.strings k).isSome ∨ ¬(before.sets k).isEmpty}.card ∧
      (∀ k ∈ keys, after.strings k = none ∧ after.sets k = ∅) ∧
      ∀ k ∉ keys, after.strings k = before.strings k ∧ after.sets k = before.sets k
  | .sadd key members, before, n, after =>
    n = {x ∈ members.toFinset | x ∉ before.sets key}.card ∧
      after.strings = before.strings ∧
      ∀ k x, x ∈ after.sets k ↔ x ∈ before.sets k ∨ (k = key ∧ x ∈ members)
  | .srem key members, before, n, after =>
    n = {x ∈ members.toFinset | x ∈ before.sets key}.card ∧
      after.strings = before.strings ∧
      ∀ k x, x ∈ after.sets k ↔ x ∈ before.sets k ∧ ¬(k = key ∧ x ∈ members)
  | .smembers key, before, members, after =>
    (members.map Text.bytes).Pairwise (· < ·) ∧ (∀ x, x ∈ members ↔ x ∈ before.sets key) ∧
      after = before

/-- Requests that are answered from a content have their effect. -/
theorem Content.effect_answer (r : Request) (c : Content) :
    Effect r c (c.answer r).1 (c.answer r).2 := by
  -- counts become sizes of sets, so that the order and the repetition of keys do not show
  cases r with
  | get key => exact ⟨rfl, rfl⟩
  | set key value => exact rfl
  | mget keys => exact ⟨rfl, rfl⟩
  | mset entries => exact ⟨fun k => strings_put_eq entries, rfl⟩
  | del keys =>
    refine ⟨?_, fun k hk => ⟨if_pos hk, if_pos hk⟩, fun k hk => ⟨if_neg hk, if_neg hk⟩⟩
    show tally c.has keys = _
    rw [tally_eq_card]
    simp [has]
  | sadd key members =>
    refine ⟨?_, rfl, fun k x => ?_⟩
    · show tally (fun x => decide (x ∉ c.sets key)) members = _
      rw [tally_eq_card]
      simp
    · by_cases hk : k = key
      · subst hk
        simp [answer, add, change]
      · simp [answer, add, change, hk]
  | srem key members =>
    refine ⟨?_, rfl, fun k x => ?_⟩
    · show tally (fun x => decide (x ∈ c.sets key)) members = _
      rw [tally_eq_card]
      simp
    · by_cases hk : k = key
      · subst hk
        simp [answer, takeOut, change]
      · simp [answer, takeOut, change, hk]
  | smembers key =>
    refine ⟨?_, fun x => Std.ExtTreeSet.mem_toList, rfl⟩
    rw [List.pairwise_map]
    refine Std.ExtTreeSet.ordered_toList.imp fun hlt => ?_
    exact Text.lt_iff_bytes_lt.1 (compare_lt_iff_lt.1 hlt)

/-! ## Chunks -/

namespace Database

/-- A chunk is not larger than the size of a chunk. -/
theorem length_le_of_mem_chunks {α : Type} {l part : List α} (h : part ∈ chunks l) :
    part.length ≤ chunkSize := by
  fun_induction chunks l with
  | case1 => cases h
  | case2 x xs ih =>
    rcases List.mem_cons.1 h with rfl | h
    · rw [List.length_cons, List.length_take, chunkSize]
      omega
    · exact ih h

/-- No statement binds more parameters than a database takes. -/
theorem bindings_le {r : Request} {s : Statement} (h : s ∈ plan r) :
    s.bindings ≤ Statement.bindingLimit := by
  -- two parameters for each element of a chunk, or one and the key
  have hsize {α : Type} {l part : List α} (hpart : part ∈ chunks l) :
      2 * part.length ≤ Statement.bindingLimit ∧ part.length + 1 ≤ Statement.bindingLimit := by
    have hle := length_le_of_mem_chunks hpart
    rw [chunkSize] at hle
    rw [Statement.bindingLimit]
    omega
  cases r with
  | get | set | smembers =>
    obtain rfl := List.mem_singleton.1 h
    simp [Statement.bindings, Statement.bindingLimit]
  | mget keys =>
    obtain ⟨part, hpart, rfl⟩ := List.mem_map.1 h
    exact Nat.le_of_succ_le (hsize hpart).2
  | mset entries =>
    obtain ⟨part, hpart, rfl⟩ := List.mem_map.1 h
    exact (hsize hpart).1
  | del keys =>
    obtain ⟨part, hpart, hs⟩ := List.mem_flatMap.1 h
    simp only [List.mem_cons, List.not_mem_nil, or_false] at hs
    rcases hs with rfl | rfl | rfl
    · exact (hsize hpart).1
    · exact Nat.le_of_succ_le (hsize hpart).2
    · exact Nat.le_of_succ_le (hsize hpart).2
  | sadd key members =>
    obtain ⟨part, hpart, rfl⟩ := List.mem_map.1 h
    exact (hsize hpart).1
  | srem key members =>
    obtain ⟨part, hpart, rfl⟩ := List.mem_map.1 h
    exact (hsize hpart).2

/-- An open database serves every request, and the request has its effect as a whole.  However else
its lists had been cut, the statements had given the same answer and left the same content, and none
of those that are run binds too many parameters. -/
theorem serve_effect {t : Tables} (h : t.Sound) (r : Request) :
    ∃ a t', serve r { tables := t } = (.ok a, { tables := t' }) ∧ t'.Sound ∧
      Effect r t.content a t'.content ∧
      (∀ cut : ∀ {α : Type}, List α → List (List α),
        (∀ {α : Type} (l : List α), (cut l).flatten = l) →
        answerOf r (t.executeAll (planBy cut r)).1 = a ∧
          (t.executeAll (planBy cut r)).2.content = t'.content) ∧
      ∀ s ∈ plan r, s.bindings ≤ Statement.bindingLimit := by
  obtain ⟨t', hsound, hcontent, hserve⟩ := serve_eq h r
  refine ⟨_, t', hserve, hsound, ?_, fun cut hcut => ?_, fun s hs => bindings_le hs⟩
  · rw [hcontent]
    exact Content.effect_answer r t.content
  · obtain ⟨hanswer, hleft, -⟩ := planBy_eq hcut h r
    exact ⟨hanswer, hleft.trans hcontent.symm⟩

/-- Tables in which one key has a string and a set. -/
def sharedKey : Tables := ⟨[("a", "1"), ("b", "2")], [("a", "x"), ("a", "y")]⟩

/-- A key that is named often enough to be in two chunks, and that has a string and a set, is
removed as one key. -/
theorem serve_effect_repeatedKey : sharedKey.Sound ∧
    ∃ t',
      serve (.del (List.replicate 500 "a")) { tables := sharedKey } = (.ok 1, { tables := t' }) ∧
      t'.content.strings "a" = none ∧ t'.content.strings "b" = some "2" := by
  have hsound : sharedKey.Sound := ⟨by decide, by decide⟩
  obtain ⟨n, t', hserve, -, ⟨hn, hnamed, hother⟩, -⟩ :=
    serve_effect hsound (.del (List.replicate 500 "a"))
  have hkeys : (List.replicate 500 "a").toFinset = {"a"} :=
    List.toFinset_replicate_of_ne_zero (by decide)
  have hone : n = 1 := by
    rw [hn, hkeys]
    decide +kernel
  subst hone
  refine ⟨hsound, t', hserve, (hnamed "a" ?_).1, ?_⟩
  · exact List.mem_replicate.2 ⟨by decide, rfl⟩
  · rw [(hother "b" fun hmem => absurd (List.eq_of_mem_replicate hmem) (by decide)).1]
    rfl

end Database

end Store

end EntityCache
