import EntityCache.Proofs.Store.Failures

/-!
# Requests to a store in memory that are made again

The content of a store does not change when requests are made again in the same order.  The maps of
a store in memory hold one thing more: whether a set without a member is there.  This is settled by
a request too, unless nothing is added to a set, so requests that add something whenever they add
leave the very same maps when they are all made again (`answerAll_answerAll`).
-/

namespace EntityCache

namespace Store

namespace Memory

variable {m m' : Memory} {key k : String} {r : Request} {rs : List Request}

/-- What answering requests one after another makes of a store. -/
def answerAll (rs : List Request) (m : Memory) : Memory := rs.foldl (fun m r => (m.answer r).2) m

@[simp] theorem answerAll_nil : answerAll [] m = m := rfl

@[simp] theorem answerAll_cons : answerAll (r :: rs) m = answerAll rs (m.answer r).2 := rfl

theorem answerAll_append {rs' : List Request} :
    answerAll (rs ++ rs') m = answerAll rs' (answerAll rs m) :=
  List.foldl_append

theorem content_answerAll : (answerAll rs m).content = m.content.carryOut rs := by
  induction rs generalizing m with
  | nil => rfl
  | cons r rest ih => rw [answerAll_cons, ih, content_answer, Content.carryOut_cons]

/-- A set is told from its members, unless it has none. -/
theorem getElem?_sets_eq : m.sets[k]? =
    if (m.setOf k).isEmpty ∧ m.sets[k]? ≠ some ∅ then none else some (m.setOf k) := by
  rw [setOf, Std.ExtTreeMap.getD_eq_getD_getElem?]
  cases m.sets[k]? with
  | none => simp
  | some set => simp

/-- Two stores of the same content are the same if the same sets without a member are there. -/
theorem eq_of_content (hcontent : m.content = m'.content)
    (hbare : ∀ k : String, m.sets[k]? = some ∅ ↔ m'.sets[k]? = some ∅) : m = m' := by
  have hstrings : m.strings = m'.strings :=
    Std.ExtTreeMap.ext_getElem? fun {k} => congrFun (congrArg Content.strings hcontent) k
  have hsets : m.sets = m'.sets := by
    apply Std.ExtTreeMap.ext_getElem?
    intro k
    have hset : m.setOf k = m'.setOf k := congrFun (congrArg Content.sets hcontent) k
    rw [getElem?_sets_eq, getElem?_sets_eq (m := m'), hset]
    simp only [ne_eq, hbare]
  cases m
  cases m'
  exact congr (congrArg Memory.mk hstrings) hsets

/-- Removed keys have no set, not even one without a member. -/
theorem getElem?_sets_del {keys : List String} :
    (m.answer (.del keys)).2.sets[k]? = if k ∈ keys then none else m.sets[k]? := by
  show (dropAll keys m).2.sets[k]? = _
  induction keys generalizing m with
  | nil => simp [dropAll]
  | cons key keys ih =>
    simp only [dropAll, ih, drop, Std.ExtTreeMap.getElem?_erase, compare_eq_iff_eq, List.mem_cons]
    by_cases hk : k = key
    · simp [hk]
    · simp [hk, Ne.symm hk]

/-- Taking members out never leaves a set without a member behind. -/
theorem getElem?_sets_srem_ne {members : List String} :
    (m.answer (.srem key members)).2.sets[key]? ≠ some ∅ := by
  simp only [answer]
  split
  case h_1 hnone => simp [hnone]
  case h_2 set _ =>
    by_cases hempty : (removeAll members set).2.isEmpty
    · simp [hempty]
    · rw [Std.ExtTreeSet.isEmpty_iff] at hempty
      simp [hempty]

/-- Taking members out of one set leaves the others. -/
theorem getElem?_sets_srem_of_ne {members : List String} (hk : k ≠ key) :
    (m.answer (.srem key members)).2.sets[k]? = m.sets[k]? := by
  simp only [answer]
  split
  case h_1 => rfl
  case h_2 set _ =>
    by_cases hempty : (removeAll members set).2.isEmpty
    · simp [hempty, Std.ExtTreeMap.getElem?_erase, Ne.symm hk]
    · simp [hempty, Std.ExtTreeMap.getElem?_insert, Ne.symm hk]

/-- A request leaves a set without a member where there was one, or fixes whether there is one. -/
theorem settles_bare (hr : ∀ key, r ≠ .sadd key []) (k : String) :
    Settles (fun m : Memory => m.sets[k]? = some ∅) fun m => (m.answer r).2 := by
  -- with members, an addition leaves no bare set; a removal takes the bare set away
  cases r with
  | get _ | set _ _ | mget _ | smembers _ => exact .keeps fun _ => rfl
  | mset entries => exact .keeps fun m => by rw [answer_mset]
  | del keys =>
    by_cases hk : k ∈ keys
    · exact .fixes False fun m => by simp [getElem?_sets_del, hk]
    · exact .keeps fun m => by simp [getElem?_sets_del, hk]
  | sadd key members =>
    by_cases hk : key = k
    · subst hk
      refine .fixes False fun m => ?_
      obtain ⟨member, rest, rfl⟩ := List.exists_cons_of_ne_nil fun h => hr key (h ▸ rfl)
      have hmem : member ∈ (addAll (member :: rest) (m.sets.getD key ∅)).2 :=
        mem_addAll.2 (.inr List.mem_cons_self)
      simp only [answer, Std.ExtTreeMap.getElem?_insert_self, Option.some.injEq, eq_iff_iff,
        iff_false]
      intro hempty
      simp [hempty] at hmem
    · refine .keeps fun m => ?_
      simp [answer, Std.ExtTreeMap.getElem?_insert, hk]
  | srem key members =>
    by_cases hk : key = k
    · subst hk
      exact .fixes False fun m => eq_false getElem?_sets_srem_ne
    · exact .keeps fun m => by rw [getElem?_sets_srem_of_ne (Ne.symm hk)]

/-- Requests that add something whenever they add to a set change nothing when they are all made
again. -/
theorem answerAll_answerAll (hrs : ∀ key, .sadd key [] ∉ rs) (m : Memory) :
    answerAll rs (answerAll rs m) = answerAll rs m := by
  apply eq_of_content
  · simp only [content_answerAll, Content.carryOut_carryOut]
  · intro k
    refine iff_of_eq ((Settles.foldl fun r hr => settles_bare ?_ k).again m)
    rintro key rfl
    exact hrs key hr

end Memory

end Store

end EntityCache
