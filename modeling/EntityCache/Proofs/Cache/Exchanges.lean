import EntityCache.Proofs.Cache.Requests
import EntityCache.Proofs.Exchanges

/-!
# What an operation has exchanged

An operation of which no request has failed has made all its requests when it has ended, and made
them in their order: a merge has put its entries and then entered its ids, an eviction has deleted
the keys of its ids and then taken the ids out.  What a lookup gives is decoded from the two answers
that it has had.
-/

namespace EntityCache

namespace KeyValueCache

section Actions

variable {α β : Type} {result : Except DomainError β} {xs : List (Exchange Store.Request.Reply)}

/-- None of the requests has failed. -/
def Answered (xs : List (Exchange Store.Request.Reply)) : Prop := ∀ x ∈ xs, ∃ a, x.2 = .ok a

/-- What begins with a request goes on with its answer. -/
theorem takes_call {r : Store.Request} {f : r.Answer → Action β}
    (h : (call r >>= f).run.Takes xs (.done result)) (hanswered : Answered xs) :
    ∃ a ys, xs = ⟨r, .ok a⟩ :: ys ∧ (f a).run.Takes ys (.done result) ∧ Answered ys := by
  obtain ⟨reply, ys, rfl, hrest⟩ := Program.Takes.of_ask h
  obtain ⟨⟨_, hok⟩, hys⟩ := List.forall_mem_cons.1 hanswered
  cases reply with
  | ok a => exact ⟨a, ys, rfl, hrest, hys⟩
  | error e => cases hok

/-- What begins with a check of the type exchanges nothing on a type that is not valid. -/
theorem takes_validate {type : String} {f : Unit → Action β}
    (h : (validate type >>= f).run.Takes xs (.done result)) :
    (¬ValidType type ∧ xs = []) ∨ ValidType type ∧ (f ()).run.Takes xs (.done result) := by
  rw [validate] at h
  split at h
  case isTrue htype => exact .inr ⟨htype, h⟩
  case isFalse htype => exact .inl ⟨htype, h.of_done.1⟩

/-- An operation that is over makes no exchange. -/
theorem takes_pure {x : β} (h : (pure x : Action β).run.Takes xs (.done result)) :
    xs = [] ∧ result = .ok x :=
  h.of_done

end Actions

variable (c : KeyValueCache) {type : String} {xs : List (Exchange Store.Request.Reply)}

/-- The requests of a merge that has ended, in order. -/
theorem requests_mergeAll {items : List Item} {result : Except DomainError Unit}
    (h : (c.mergeAll type items).run.Takes xs (.done result)) (hanswered : Answered xs) :
    xs = [] ∨ ValidType type ∧ ∃ first : List Store.Request,
      (∀ r ∈ first, r = .sadd (c.indexKey type) (relationshipNames items)) ∧
      xs.map (·.1) = first ++ [.mset (items.flatMap (c.entries type)),
        .sadd (c.membersKey type) ((items.filter (!·.isBlank)).map (·.id))] := by
  rcases takes_validate h with ⟨-, hnil⟩ | ⟨htype, h⟩
  · exact .inl hnil
  simp only at h
  split at h
  case isTrue => exact .inl (takes_pure h).1
  case isFalse =>
    refine .inr ⟨htype, ?_⟩
    -- the last two requests are the same whether there are names for the index or not
    have hstrings {ys : List (Exchange Store.Request.Reply)} (hys : Answered ys)
        (h : (ExceptT.run do
          call (.mset (items.flatMap (c.entries type)))
          let _ ← call (.sadd (c.membersKey type) ((items.filter (!·.isBlank)).map (·.id)))).Takes
            ys (.done result)) :
        ys.map (·.1) = [.mset (items.flatMap (c.entries type)),
          .sadd (c.membersKey type) ((items.filter (!·.isBlank)).map (·.id))] := by
      obtain ⟨_, zs, rfl, h, hzs⟩ := takes_call h hys
      obtain ⟨_, zs, rfl, h, -⟩ := takes_call h hzs
      obtain ⟨rfl, -⟩ := takes_pure h
      rfl
    split at h
    case isTrue =>
      obtain ⟨_, ys, rfl, h, hys⟩ := takes_call h hanswered
      exact ⟨[_], by simp, congrArg _ (hstrings hys h)⟩
    case isFalse => exact ⟨[], by simp, hstrings hanswered h⟩

/-- The requests of an eviction that has ended, in order. -/
theorem requests_evictAll {ids : List String} {result : Except DomainError Unit}
    (h : (c.evictAll type ids).run.Takes xs (.done result)) (hanswered : Answered xs) :
    xs = [] ∨ ValidType type ∧ ∃ known : List String,
      xs.map (·.1) = [.smembers (c.indexKey type),
        .del ((distinct ids).flatMap fun id =>
          known.map (c.relationshipKey type id) ++ [c.attributesKey type id]),
        .srem (c.membersKey type) (distinct ids)] := by
  rcases takes_validate h with ⟨-, hnil⟩ | ⟨htype, h⟩
  · exact .inl hnil
  simp only at h
  split at h
  case isTrue => exact .inl (takes_pure h).1
  case isFalse =>
    -- every exchange was answered, so each step takes the first one and leaves the others
    obtain ⟨known, ys, rfl, h, hys⟩ := takes_call h hanswered
    obtain ⟨_, zs, rfl, h, hzs⟩ := takes_call h hys
    obtain ⟨_, us, rfl, h, -⟩ := takes_call h hzs
    obtain ⟨rfl, -⟩ := takes_pure h
    exact .inr ⟨htype, known, rfl⟩

/-- What a lookup that has ended has exchanged, and what it has made of it. -/
theorem takes_getAllByIds {ids : List String} {result : Except DomainError (List Entity)}
    (htype : ValidType type) (h : (c.getAllByIds type ids).run.Takes xs (.done result))
    (hanswered : Answered xs) :
    ids = [] ∧ result = .ok [] ∨
    ∃ (known : List String) (slots : List (Option String)),
      xs = [⟨.smembers (c.indexKey type), .ok known⟩,
        ⟨.mget ((distinct ids).flatMap (c.entityKeys known type)), .ok slots⟩] ∧
      (slots.length = ((distinct ids).flatMap (c.entityKeys known type)).length →
        result = decodeEntities known (distinct ids) slots) := by
  rcases takes_validate h with ⟨hnot, -⟩ | ⟨-, h⟩
  · exact absurd htype hnot
  simp only at h
  split at h
  case isTrue hnil =>
    obtain ⟨-, rfl⟩ := takes_pure h
    exact .inl ⟨distinct_eq_nil.1 (List.isEmpty_iff.1 hnil), rfl⟩
  case isFalse =>
    obtain ⟨known, ys, rfl, h, hys⟩ := takes_call h hanswered
    obtain ⟨slots, zs, rfl, h, -⟩ := takes_call h hys
    refine .inr ⟨known, slots, ?_⟩
    split at h
    case isTrue hlength =>
      obtain ⟨rfl, -⟩ := h.of_done
      exact ⟨rfl, fun hsame => absurd hsame hlength⟩
    case isFalse =>
      obtain ⟨rfl, hresult⟩ := h.of_done
      exact ⟨rfl, fun _ => hresult⟩

end KeyValueCache

end EntityCache
