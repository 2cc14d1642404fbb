import EntityCache.Proofs.Store.Database
import EntityCache.Proofs.Store.Memory

/-!
# A store in memory and a store in a database answer alike, but for hollow keys

Both stores hold a `Content`, and answer from it.  There is one thing that a store in memory keeps
and the tables of a database do not: the empty set that is left where nothing has been added to a
set that was not there.  Its key is `Hollow`, it has neither a string nor a member, and it is
counted when it is removed.  Nothing else tells the two stores apart, so they answer a sequence of
requests alike if and only if no hollow key is removed in it (`answersAlike_iff`).
-/

namespace EntityCache

namespace Store

namespace Memory

variable {m : Memory} {key k : String} {keys members : List String} {set : Names}

/-- What the two maps hold. -/
def content (m : Memory) : Content := ⟨fun k => m.strings[k]?, m.setOf⟩

/-- A key without a string whose set is there, and has no member. -/
def Hollow (m : Memory) (key : String) : Prop := key ∉ m.strings ∧ m.sets[key]? = some ∅

instance : Decidable (m.Hollow key) := inferInstanceAs (Decidable (_ ∧ _))

theorem content_empty : ({} : Memory).content = .empty := by
  apply Content.ext
  · funext k
    exact Std.ExtTreeMap.getElem?_empty
  · funext k
    show (∅ : Std.ExtTreeMap String Names).getD k ∅ = ∅
    exact Std.ExtTreeMap.getD_empty

/-- A key that is there has a string or a member, or it is hollow. -/
theorem has_iff : m.has key ↔ m.content.has key ∨ m.Hollow key := by
  have hstring : (m.content.strings key).isSome ↔ key ∈ m.strings :=
    Std.ExtTreeMap.isSome_getElem?_iff_mem
  have hset : key ∈ m.sets ↔ (m.setOf key).isEmpty = false ∨ m.sets[key]? = some ∅ := by
    rw [← Std.ExtTreeMap.isSome_getElem?_iff_mem, setOf, Std.ExtTreeMap.getD_eq_getD_getElem?]
    cases m.sets[key]? with
    | none => simp
    | some set =>
      rw [Option.getD_some, Std.ExtTreeSet.isEmpty_eq_false_iff]
      simp [em']
  rw [has, Content.has, Bool.or_eq_true, Bool.or_eq_true, hstring, Bool.not_eq_true', Hollow]
  simp only [decide_eq_true_eq, hset]
  show _ ↔ (_ ∨ (m.setOf key).isEmpty = false) ∨ _
  tauto

/-- A set without members is no content. -/
theorem Hollow.not_has (h : m.Hollow key) : ¬m.content.has key := by
  obtain ⟨hstring, hset⟩ := h
  have hempty : m.setOf key = ∅ := by
    rw [setOf, Std.ExtTreeMap.getD_eq_getD_getElem?, hset, Option.getD_some]
  simp [Content.has, content, hempty, hstring]

/-! ## The loops over lists -/

/-- Adding one by one adds all, and counts the distinct members that were not there. -/
theorem addAll_eq :
    addAll members set = (tally (fun x => decide (x ∉ set)) members, set ∪ .ofList members) := by
  apply Prod.ext
  · apply loop_eq_tally (fun members set => (addAll members set).1)
      (fun set x => decide (x ∉ set)) (fun x set => set.insert x)
    · intro set
      rfl
    · intro x rest set
      by_cases hx : x ∈ set <;> simp [addAll, hx, Nat.add_comm]
    · intro x y set
      simp [Bool.and_comm, @eq_comm _ x]
  · apply Std.ExtTreeSet.ext_mem
    intro x
    simp [mem_addAll]

/-- Removing one by one removes all, and counts the distinct members that were there. -/
theorem removeAll_eq :
    removeAll members set = (tally (fun x => decide (x ∈ set)) members, set \ .ofList members) := by
  apply Prod.ext
  · apply loop_eq_tally (fun members set => (removeAll members set).1)
      (fun set x => decide (x ∈ set)) (fun x set => set.erase x)
    · intro set
      rfl
    · intro x rest set
      by_cases hx : x ∈ set <;> simp [removeAll, hx, Nat.add_comm]
    · intro x y set
      simp [Bool.and_comm, @eq_comm _ x]
  · apply Std.ExtTreeSet.ext_mem
    intro x
    simp [mem_removeAll]

/-- Removing key by key counts the distinct keys that were there. -/
theorem count_dropAll : (dropAll keys m).1 = tally m.has keys := by
  apply loop_eq_tally (fun keys m => (dropAll keys m).1) has fun key m => m.drop key
  · intro m
    rfl
  · intro key rest m
    by_cases hkey : m.has key <;> simp [dropAll, hkey, Nat.add_comm]
  · intro key k m
    by_cases hk : k = key
    · subst hk
      simp [has, drop]
    · simp [has, drop, hk, Ne.symm hk]

/-! ## Requests -/

theorem content_mset (entries : List (String × String)) (m : Memory) :
    (m.answer (.mset entries)).2.content = m.content.put entries := by
  -- entry by entry, a value put in the map is an update of the function
  have hstrings (t : Std.ExtTreeMap String String) :
      (fun k => (putEntries t entries)[k]?) =
        entries.foldl (fun all (e : String × String) => Function.update all e.1 (some e.2))
          (fun k => t[k]?) := by
    induction entries generalizing t with
    | nil => rfl
    | cons e rest ih =>
      have hinsert : (fun k => (t.insert e.1 e.2)[k]?) =
          Function.update (fun k => t[k]?) e.1 (some e.2) := by
        funext k
        rw [Std.ExtTreeMap.getElem?_insert, Function.update_apply]
        simp only [compare_eq_iff_eq, @eq_comm _ k]
      rw [List.foldl_cons, ← hinsert, ← ih]
      rfl
  rw [answer_mset]
  exact Content.ext (hstrings m.strings) rfl

/-- A request leaves in the maps what it leaves in their content. -/
theorem content_answer (r : Request) (m : Memory) :
    (m.answer r).2.content = (m.content.answer r).2 := by
  -- the strings and the sets of the content, key by key
  cases r with
  | get key => rfl
  | set key value => exact content_mset [(key, value)] m
  | mget keys => rfl
  | mset entries => exact content_mset entries m
  | del keys =>
    apply Content.ext
    · funext k
      exact getElem?_strings_del
    · funext k
      exact setOf_del
  | sadd key members =>
    refine Content.ext rfl (funext fun k => Std.ExtTreeSet.ext_mem fun x => ?_)
    show x ∈ (m.answer (.sadd key members)).2.setOf k ↔ _
    rw [mem_setOf_sadd]
    by_cases hk : k = key
    · subst hk
      simp [Content.answer, Content.add, Content.change, content]
    · simp [Content.answer, Content.add, Content.change, content, hk]
  | srem key members =>
    have hstrings : (m.answer (.srem key members)).2.strings = m.strings := strings_srem members m
    refine Content.ext (by rw [content, hstrings]; rfl)
      (funext fun k => Std.ExtTreeSet.ext_mem fun x => ?_)
    show x ∈ (m.answer (.srem key members)).2.setOf k ↔ _
    rw [mem_setOf_srem]
    by_cases hk : k = key
    · subst hk
      simp [Content.answer, Content.takeOut, Content.change, content]
    · simp [Content.answer, Content.takeOut, Content.change, content, hk]
  | smembers key => rfl

/-- Keys are counted alike exactly when none of them is hollow. -/
theorem count_del_iff :
    (m.answer (.del keys)).1 = (m.content.answer (.del keys)).1 ↔ ∀ key ∈ keys, ¬m.Hollow key := by
  show (dropAll keys m).1 = tally m.content.has keys ↔ _
  rw [count_dropAll, tally_eq_iff fun key h => has_iff.2 (.inl h)]
  constructor
  · intro h key hkey hhollow
    exact hhollow.not_has (h key hkey (has_iff.2 (.inr hhollow)))
  · intro h key hkey hhas
    exact (has_iff.1 hhas).resolve_right (h key hkey)

/-- Every request but the removal of hollow keys is answered from the content. -/
theorem answer_eq {r : Request} (h : ∀ keys, r = .del keys → ∀ key ∈ keys, ¬m.Hollow key) :
    (m.answer r).1 = (m.content.answer r).1 := by
  cases r with
  | get key => rfl
  | set key value => rfl
  | mget keys => rfl
  | mset entries => rfl
  | del keys => exact count_del_iff.2 (h keys rfl)
  | sadd key members => exact congrArg Prod.fst addAll_eq
  | srem key members =>
    show (m.answer (.srem key members)).1 = tally (fun x => decide (x ∈ m.setOf key)) members
    rw [answer, setOf, Std.ExtTreeMap.getD_eq_getD_getElem?]
    cases m.sets[key]? with
    | none => simp [tally]
    | some set => exact congrArg Prod.fst removeAll_eq
  | smembers key => rfl

/-- A new value hollows no set. -/
theorem Hollow.of_put {value : String} (h : (m.put k value).Hollow key) : m.Hollow key :=
  ⟨fun hmem => h.1 (Std.ExtTreeMap.mem_insert.2 (.inr hmem)), h.2⟩

theorem ne_of_getElem?_erase {sets : Std.ExtTreeMap String Names}
    (h : (sets.erase k)[key]? = some set) : key ≠ k ∧ sets[key]? = some set := by
  rw [Std.ExtTreeMap.getElem?_erase] at h
  simp only [compare_eq_iff_eq] at h
  split at h
  · cases h
  case isFalse hk => exact ⟨Ne.symm hk, h⟩

/-- What is dropped hollows no other set. -/
theorem Hollow.of_drop (h : (m.drop k).Hollow key) : m.Hollow key := by
  obtain ⟨hstring, hset⟩ := h
  obtain ⟨hk, hset⟩ := ne_of_getElem?_erase hset
  refine ⟨fun hmem => hstring (Std.ExtTreeMap.mem_erase.2 ⟨?_, hmem⟩), hset⟩
  rwa [ne_eq, compare_eq_iff_eq, eq_comm]

theorem Hollow.of_insert {strings : Std.ExtTreeMap String String}
    {sets : Std.ExtTreeMap String Names} (h : (⟨strings, sets.insert k set⟩ : Memory).Hollow key) :
    (⟨strings, sets⟩ : Memory).Hollow key ∨ key = k ∧ set = ∅ := by
  obtain ⟨hstring, hset⟩ := h
  simp only [Std.ExtTreeMap.getElem?_insert, compare_eq_iff_eq] at hset
  split at hset
  case isTrue hk => exact .inr ⟨hk.symm, Option.some.inj hset⟩
  case isFalse => exact .inl ⟨hstring, hset⟩

/-- A key is hollow only because nothing has been added to its set. -/
theorem Hollow.of_answer {r : Request} (h : (m.answer r).2.Hollow key) :
    m.Hollow key ∨ r = .sadd key [] := by
  -- only an addition without members makes a set without any; a removal takes the set away
  cases r with
  | get _ => exact .inl h
  | set k v => exact .inl (Hollow.of_put h)
  | mget _ => exact .inl h
  | mset entries =>
    left
    replace h : (entries.foldl (fun m entry => m.put entry.1 entry.2) m).Hollow key := h
    induction entries generalizing m with
    | nil => exact h
    | cons entry rest ih => exact (ih h).of_put
  | del keys =>
    left
    replace h : (dropAll keys m).2.Hollow key := h
    induction keys generalizing m with
    | nil => exact h
    | cons k rest ih => exact (ih h).of_drop
  | sadd k members =>
    rcases Hollow.of_insert h with h | ⟨rfl, hempty⟩
    · exact .inl h
    · rw [addAll_eq, Std.ExtTreeSet.eq_empty_iff_forall_not_mem] at hempty
      have hmembers : members = [] := by
        rw [List.eq_nil_iff_forall_not_mem]
        intro x hx
        apply hempty x
        simp [hx]
      exact .inr (hmembers ▸ rfl)
  | srem k members =>
    left
    simp only [answer] at h
    split at h
    case h_1 => exact h
    case h_2 set hset =>
      by_cases hempty : (removeAll members set).2.isEmpty
      · rw [if_pos hempty] at h
        exact ⟨h.1, (ne_of_getElem?_erase h.2).2⟩
      · rw [if_neg hempty] at h
        rcases Hollow.of_insert h with h | ⟨rfl, heq⟩
        · exact h
        · exact absurd (Std.ExtTreeSet.isEmpty_iff.2 heq) hempty
  | smembers _ => exact .inl h

end Memory

/-! ## Two stores side by side -/

/-- The two stores answer every one of the requests alike, each from where the ones before have left
it. -/
def AnswersAlike : List Request → Memory → Database → Prop
  | [], _, _ => True
  | r :: rest, m, d => (m.serve r).1 = (d.serve r).1 ∧ AnswersAlike rest (m.serve r).2 (d.serve r).2

/-- Whenever keys are removed none of them is hollow. -/
def RemovesNoHollow : List Request → Memory → Prop
  | [], _ => True
  | r :: rest, m =>
    (∀ keys, r = .del keys → ∀ key ∈ keys, ¬m.Hollow key) ∧ RemovesNoHollow rest (m.serve r).2

/-- An open database serves a request from the content of its tables, and stays open. -/
theorem Database.serve_eq {t : Tables} (h : t.Sound) (r : Request) :
    ∃ t' : Tables, t'.Sound ∧ t'.content = (t.content.answer r).2 ∧
      Database.serve r { tables := t } = (.ok (t.content.answer r).1, { tables := t' }) := by
  obtain ⟨hanswer, hcontent, hsound⟩ := Database.answer_eq h r
  refine ⟨(Database.answer r t).2, hsound, hcontent, ?_⟩
  rw [← hanswer]
  rfl

/-- One request to two stores of the same content is answered alike exactly when it removes no
hollow key, and leaves two stores of the same content. -/
theorem serve_alike_iff {m : Memory} {t : Tables} (h : t.Sound) (hcontent : m.content = t.content)
    (r : Request) :
    ((m.serve r).1 = (Database.serve r { tables := t }).1 ↔
        ∀ keys, r = .del keys → ∀ key ∈ keys, ¬m.Hollow key) ∧
      ∃ t' : Tables, t'.Sound ∧ (m.serve r).2.content = t'.content ∧
        (Database.serve r { tables := t }).2 = { tables := t' } := by
  obtain ⟨t', hsound, hleft, hserve⟩ := Database.serve_eq h r
  have hmemory : (m.serve r).1 = .ok (m.answer r).1 := rfl
  rw [hserve, hmemory, Except.ok.injEq, ← hcontent]
  refine ⟨⟨?_, Memory.answer_eq⟩, t', hsound, ?_, rfl⟩
  · rintro hsame keys rfl
    exact Memory.count_del_iff.1 hsame
  · rw [hleft, ← hcontent]
    exact Memory.content_answer r m

/-- Of the same content, memory and tables answer alike unless a removal meets a set without
members. -/
theorem answersAlike_of_content {m : Memory} {t : Tables} (h : t.Sound)
    (hcontent : m.content = t.content) (rs : List Request) :
    AnswersAlike rs m { tables := t } ↔ RemovesNoHollow rs m := by
  induction rs generalizing m t with
  | nil => rfl
  | cons r rest ih =>
    obtain ⟨hreply, t', hsound, hleft, hserve⟩ := serve_alike_iff h hcontent r
    rw [AnswersAlike, RemovesNoHollow, hreply, hserve, ih hsound hleft]

/-- Two empty stores, one in memory and one in a database, answer a sequence of requests alike if
and only if no key is hollow when it is removed. -/
theorem answersAlike_iff (rs : List Request) : AnswersAlike rs {} {} ↔ RemovesNoHollow rs {} :=
  answersAlike_of_content Tables.sound_empty
    (Memory.content_empty.trans Tables.content_empty.symm) rs

/-- A set to which nothing has been added is removed as one key from a store in memory, and as none
from a database. -/
theorem not_answersAlike_sadd_nil : ¬∀ rs, AnswersAlike rs {} {} := by
  intro h
  have hdel := (h [.sadd "k" [], .del ["k"]]).2.1
  revert hdel
  decide +kernel

/-- Without an empty addition there is never a set without members to remove. -/
theorem removesNoHollow_of_sadd_ne_nil {rs : List Request} {m : Memory}
    (hm : ∀ key, ¬m.Hollow key) (h : ∀ key, .sadd key [] ∉ rs) : RemovesNoHollow rs m := by
  induction rs generalizing m with
  | nil => trivial
  | cons r rest ih =>
    refine ⟨fun _ _ key _ => hm key, ih ?_ fun key hmem => h key (List.mem_cons_of_mem _ hmem)⟩
    intro key hhollow
    rcases Memory.Hollow.of_answer hhollow with hhollow | rfl
    · exact hm key hhollow
    · exact h key List.mem_cons_self

/-- Where something is added whenever members are added, the stores answer alike. -/
theorem answersAlike_of_sadd_ne_nil {rs : List Request} (h : ∀ key, .sadd key [] ∉ rs) :
    AnswersAlike rs {} {} := by
  apply (answersAlike_of_content Tables.sound_empty
    (Memory.content_empty.trans Tables.content_empty.symm) rs).2
  apply removesNoHollow_of_sadd_ne_nil _ h
  intro key hhollow
  have hnone : (∅ : Std.ExtTreeMap String Names)[key]? = some ∅ := hhollow.2
  simp at hnone

end Store

end EntityCache
