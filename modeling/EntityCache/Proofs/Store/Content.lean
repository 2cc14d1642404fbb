import EntityCache.Proofs.Entity.Maps
import EntityCache.Store.Request
import Mathlib.Data.List.Nodup
import Mathlib.Data.List.Count
import Mathlib.Logic.Function.Basic

/-!
# What a store holds, and how it answers from it

`Store.Content` is a store without its representation: the string of each key and the set of each
key, where a key without members has the empty set.  `Content.answer` says what every request
answers and leaves behind.  A request that counts answers a `tally`, the number of distinct strings
of its list that meet a condition.

The three counting requests and the writing of entries are `Sequential`: carried out on the parts of
a list, one after another, they come to the same content and the same sum.  This is what allows a
store to work through a list element by element, or in chunks.
-/

namespace EntityCache

namespace Store

/-! ## Counting distinct strings -/

section Tally

variable {p : String → Bool} {xs ys l : List String} {x : String}

/-- The number of distinct strings of a list that satisfy `p`. -/
def tally (p : String → Bool) (xs : List String) : Nat := (distinct xs).countP p

@[simp] theorem tally_nil : tally p [] = 0 := rfl

/-- A list without repetitions of the strings that are meant is as long as their tally. -/
theorem length_eq_tally (hl : l.Nodup) (h : ∀ x, x ∈ l ↔ x ∈ xs ∧ p x) : l.length = tally p xs := by
  have hperm : l.Perm ((distinct xs).filter p) := by
    apply (List.perm_ext_iff_of_nodup hl ((nodup_distinct xs).filter p)).2
    intro x
    rw [h, List.mem_filter, mem_distinct]
  rw [hperm.length_eq, tally, List.countP_eq_length_filter]

/-- Of two lists after each other, the second one counts what the first has not counted. -/
theorem tally_append :
    tally p (xs ++ ys) = tally p xs + tally (fun y => p y && decide (y ∉ xs)) ys := by
  have hnodup : ((distinct xs).filter p ++
      (distinct ys).filter fun y => p y && decide (y ∉ xs)).Nodup := by
    apply List.Nodup.append ((nodup_distinct xs).filter _) ((nodup_distinct ys).filter _)
    intro y hfirst hsecond
    simp only [List.mem_filter, mem_distinct, Bool.and_eq_true, decide_eq_true_eq] at hfirst hsecond
    exact hsecond.2.2 hfirst.1
  rw [← length_eq_tally hnodup, List.length_append, tally, tally, List.countP_eq_length_filter,
    List.countP_eq_length_filter]
  intro y
  simp only [List.mem_append, List.mem_filter, mem_distinct, Bool.and_eq_true, decide_eq_true_eq]
  by_cases hy : y ∈ xs <;> simp [hy]

theorem tally_singleton : tally p [x] = if p x then 1 else 0 := by
  simp [tally, distinct_eq_self (List.nodup_singleton x), List.countP_singleton]

/-- The first string counts if it is meant, and is not counted again. -/
theorem tally_cons :
    tally p (x :: xs) = (if p x then 1 else 0) + tally (fun y => p y && decide (y ≠ x)) xs := by
  rw [← List.singleton_append, tally_append, tally_singleton]
  simp only [List.mem_singleton, ne_eq]

/-- Only the strings of the list are looked at. -/
theorem tally_congr {q : String → Bool} (h : ∀ x ∈ xs, p x = q x) : tally p xs = tally q xs :=
  List.countP_congr fun x hx => by rw [h x (mem_distinct.1 hx)]

/-- A weaker condition is met by as many strings only if none meets it alone. -/
theorem tally_eq_iff {q : String → Bool} (h : ∀ x, p x → q x) :
    tally q xs = tally p xs ↔ ∀ x ∈ xs, q x → p x := by
  constructor
  · intro heq x hx hq
    have hsub : ((distinct xs).filter p).Sublist ((distinct xs).filter q) :=
      List.monotone_filter_right _ h
    rw [tally, tally, List.countP_eq_length_filter, List.countP_eq_length_filter] at heq
    have hmem : x ∈ (distinct xs).filter q := List.mem_filter.2 ⟨mem_distinct.2 hx, hq⟩
    rw [← hsub.eq_of_length heq.symm] at hmem
    exact (List.mem_filter.1 hmem).2
  · intro hq
    exact tally_congr fun x hx => Bool.eq_iff_iff.2 ⟨hq x hx, h x⟩

/-- A loop over a list comes to the tally of `p` if each string counts that satisfies `p` at its
turn, and does not satisfy it from then on. -/
theorem loop_eq_tally {σ : Type} (loop : List String → σ → Nat) (p : σ → String → Bool)
    (next : String → σ → σ) (hnil : ∀ s, loop [] s = 0)
    (hcons : ∀ x xs s, loop (x :: xs) s = (if p s x then 1 else 0) + loop xs (next x s))
    (hnext : ∀ x y s, p (next x s) y = (p s y && decide (y ≠ x))) (xs : List String) (s : σ) :
    loop xs s = tally (p s) xs := by
  induction xs generalizing s with
  | nil => exact hnil s
  | cons x xs ih =>
    rw [hcons, ih, tally_cons]
    congr 1
    exact tally_congr fun y _ => hnext x y s

end Tally

/-! ## Contents -/

/-- What a store holds: the string of each key, and the set of each key. -/
@[ext] structure Content where
  strings : String → Option String
  sets : String → Names

namespace Content

variable {c : Content} {key k : String}

/-- A store that has never been written to holds nothing. -/
def empty : Content := ⟨fun _ => none, fun _ => ∅⟩

/-- Whether a key has a string or a member. -/
def has (c : Content) (key : String) : Bool := (c.strings key).isSome || !(c.sets key).isEmpty

/-- Makes strings the values of keys, in order. -/
def put (entries : List (String × String)) (c : Content) : Content :=
  { c with
    strings := entries.foldl (fun all e => Function.update all e.1 (some e.2)) c.strings }

/-- Removes keys with their string and their set; counts those that were there. -/
def remove (keys : List String) (c : Content) : Nat × Content :=
  (tally c.has keys,
    { strings := fun k => if k ∈ keys then none else c.strings k
      sets := fun k => if k ∈ keys then ∅ else c.sets k })

/-- Makes `f` of the set of a key and a list of members; counts the members that satisfy `p` of the
set as it was. -/
def change (p : Names → String → Bool) (f : Names → List String → Names) (key : String)
    (members : List String) (c : Content) : Nat × Content :=
  (tally (p (c.sets key)) members,
    { c with sets := Function.update c.sets key (f (c.sets key) members) })

/-- Adds members to the set of a key; counts the new ones. -/
def add : String → List String → Content → Nat × Content :=
  change (fun set x => decide (x ∉ set)) fun set members => set ∪ .ofList members

/-- Takes members out of the set of a key; counts those that were there. -/
def takeOut : String → List String → Content → Nat × Content :=
  change (fun set x => decide (x ∈ set)) fun set members => set \ .ofList members

/-- What a request is answered, and what it leaves behind. -/
def answer : (r : Request) → Content → r.Answer × Content
  | .get key, c => (c.strings key, c)
  | .set key value, c => ((), c.put [(key, value)])
  | .mget keys, c => (keys.map c.strings, c)
  | .mset entries, c => ((), c.put entries)
  | .del keys, c => c.remove keys
  | .sadd key members, c => c.add key members
  | .srem key members, c => c.takeOut key members
  | .smembers key, c => ((c.sets key).toList, c)

/-! ## Lists in parts -/

/-- An operation on a list may be carried out on the parts of the list, one after another. -/
structure Sequential {α : Type} (op : List α → Content → Nat × Content) : Prop where
  nil : ∀ c, op [] c = (0, c)
  append : ∀ xs ys c, op (xs ++ ys) c =
    ((op xs c).1 + (op ys (op xs c).2).1, (op ys (op xs c).2).2)

/-- Values can be put in any parts, one after the other. -/
theorem sequential_put : Sequential fun entries c => (0, c.put entries) where
  nil _ := rfl
  append xs ys c := by simp only [put, List.foldl_append, Nat.add_zero]

/-- Removed keys are gone, the others are as they were. -/
theorem has_remove {keys : List String} :
    (c.remove keys).2.has k = (c.has k && decide (k ∉ keys)) := by
  by_cases hk : k ∈ keys <;> simp [remove, has, hk]

/-- Keys can be removed in any parts, and the counts add up. -/
theorem sequential_remove : Sequential remove where
  nil c := by simp [remove]
  append xs ys c := by
    apply Prod.ext
    · show tally c.has (xs ++ ys) = tally c.has xs + tally (c.remove xs).2.has ys
      rw [tally_append]
      congr 1
      exact tally_congr fun k _ => has_remove.symm
    · apply Content.ext
      · funext k
        by_cases hx : k ∈ xs <;> by_cases hy : k ∈ ys <;> simp [remove, hx, hy]
      · funext k
        by_cases hx : k ∈ xs <;> by_cases hy : k ∈ ys <;> simp [remove, hx, hy]

/-- A change of a set may be made in parts if a member that has been worked on does not satisfy `p`
any more. -/
theorem sequential_change {p : Names → String → Bool} {f : Names → List String → Names}
    (hnil : ∀ set, f set [] = set) (happend : ∀ set xs ys, f set (xs ++ ys) = f (f set xs) ys)
    (hp : ∀ set xs y, p (f set xs) y = (p set y && decide (y ∉ xs))) (key : String) :
    Sequential (change p f key) where
  nil c := by simp [change, hnil]
  append xs ys c := by
    have hset : (change p f key xs c).2.sets key = f (c.sets key) xs := by simp [change]
    apply Prod.ext
    · show tally (p (c.sets key)) (xs ++ ys) =
        tally (p (c.sets key)) xs + tally (p ((change p f key xs c).2.sets key)) ys
      rw [tally_append, hset]
      congr 1
      exact tally_congr fun y _ => (hp _ _ _).symm
    · simp [change, happend]

/-- Members can be added in any parts, and the counts add up. -/
theorem sequential_add (key : String) : Sequential (add key) := by
  apply sequential_change
  · intro set
    apply Std.ExtTreeSet.ext_mem
    simp
  · intro set xs ys
    apply Std.ExtTreeSet.ext_mem
    simp [or_assoc]
  · intro set xs y
    simp

/-- Members can be taken out in any parts, and the counts add up. -/
theorem sequential_takeOut (key : String) : Sequential (takeOut key) := by
  apply sequential_change
  · intro set
    apply Std.ExtTreeSet.ext_mem
    simp
  · intro set xs ys
    apply Std.ExtTreeSet.ext_mem
    simp [and_assoc]
  · intro set xs y
    simp

end Content

end Store

end EntityCache
