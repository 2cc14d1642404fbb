import EntityCache.Proofs.Cache.Cycles
import EntityCache.Proofs.Text.Bytes

/-!
# The effect of writing a snapshot

A snapshot is written type by type.  Whatever cache it is written to, and whatever is seen of the
cache (`Outlook`): if the writes of one type are seen on that type only (`Outlook.Writes`), then
each type of the snapshot has its effect, in whatever order the types are written
(`Outlook.collected_of_ok`), and a failure splits them into those that have been written and those
that have not been touched (`Outlook.stopped_of_error`).
-/

namespace EntityCache

open Collection

/-! ## What is seen of a cache -/

/-- A way to look at a cache: which entity it keeps under an id of a type, if any, and which ids of
a type it lists. -/
structure Outlook (σ : Type) where
  keeps : σ → String → String → Option Entity → Prop
  lists : σ → String → Except DomainError (List String)

namespace Outlook

variable {σ : Type} (V : Outlook σ) {before middle after : σ} {type : String} {items : List Item}
  {ids : List String}

/-- Nothing of a type has changed. -/
structure Untouched (type : String) (before after : σ) : Prop where
  lists : V.lists after type = V.lists before type
  keeps : ∀ id e, V.keeps before type id e → V.keeps after type id e

/-- Items of a type have been merged, and then ids have been evicted.  An evicted id is neither
listed nor there, an entity that items are for has these laid over it in their order, and every
other entity is as it was. -/
structure Written (type : String) (items : List Item) (ids : List String) (before after : σ) :
    Prop where
  listed : ∃ old new, V.lists before type = .ok old ∧ V.lists after type = .ok new ∧
    ∀ id, id ∈ new ↔
      id ∉ ids ∧ (id ∈ old ∨ ∃ item ∈ items, item.isBlank = false ∧ item.id = id)
  evicted : ∀ id ∈ ids, ∀ e, V.keeps before type id e → V.keeps after type id none
  upserted : ∀ item ∈ items, item.id ∉ ids → ∀ e, V.keeps before type item.id e →
    V.keeps after type item.id (items.foldl (DirectCache.upsertItem item.id) e)
  others : ∀ id ∉ ids, (∀ item ∈ items, item.id ≠ id) → ∀ e, V.keeps before type id e →
    V.keeps after type id e

variable {V}

theorem Untouched.refl (type : String) (state : σ) : V.Untouched type state state :=
  ⟨rfl, fun _ _ h => h⟩

/-- What two steps leave untouched they leave untouched together. -/
theorem Untouched.trans (h : V.Untouched type before middle) (h' : V.Untouched type middle after) :
    V.Untouched type before after :=
  ⟨h'.lists.trans h.lists, fun id e he => h'.keeps id e (h.keeps id e he)⟩

/-- What is written after a step that touched nothing is written from its start. -/
theorem Untouched.written (h : V.Untouched type before middle)
    (h' : V.Written type items ids middle after) : V.Written type items ids before after where
  listed := by
    rw [← h.lists]
    exact h'.listed
  evicted id hid e he := h'.evicted id hid e (h.keeps id e he)
  upserted item hitem hid e he := h'.upserted item hitem hid e (h.keeps _ e he)
  others id hid hitems e he := h'.others id hid hitems e (h.keeps id e he)

/-- What is written stays written under a step that touches nothing. -/
theorem Written.untouched (h : V.Written type items ids before middle)
    (h' : V.Untouched type middle after) : V.Written type items ids before after where
  listed := by
    rw [h'.lists]
    exact h.listed
  evicted id hid e he := h'.keeps id _ (h.evicted id hid e he)
  upserted item hitem hid e he := h'.keeps _ _ (h.upserted item hitem hid e he)
  others id hid hitems e he := h'.keeps id e (h.others id hid hitems e he)

/-- Merging first and evicting then is both. -/
theorem Written.evict (h : V.Written type items [] before middle)
    (h' : V.Written type [] ids middle after) : V.Written type items ids before after where
  listed := by
    obtain ⟨old, new, hold, hnew, hmem⟩ := h.listed
    obtain ⟨old', new', hold', hnew', hmem'⟩ := h'.listed
    obtain rfl := Except.ok.inj (hnew.symm.trans hold')
    refine ⟨old, new', hold, hnew', fun id => ?_⟩
    rw [hmem', hmem]
    simp
  evicted id hid e he := by
    -- what is evicted may have been merged just before; then it is kept laid over, else as it was
    by_cases hitem : ∃ item ∈ items, item.id = id
    · obtain ⟨item, hitem, rfl⟩ := hitem
      exact h'.evicted _ hid _ (h.upserted item hitem List.not_mem_nil e he)
    · push Not at hitem
      exact h'.evicted id hid e (h.others id List.not_mem_nil hitem e he)
  upserted item hitem hid e he :=
    h'.others _ hid (List.forall_mem_nil _) _ (h.upserted item hitem List.not_mem_nil e he)
  others id hid hitems e he :=
    h'.others id hid (List.forall_mem_nil _) e (h.others id List.not_mem_nil hitems e he)

/-! ## Operations on one type -/

variable {ε : Type} {I : σ → Prop} {blame : ε → Prop} {effect effect' : σ → σ → Prop}
  {op op' : ExceptT ε (StateM σ) Unit}

/-- Of two operations one after another, the first has failed, or the second is carried out. -/
theorem run_andThen (op op' : ExceptT ε (StateM σ) Unit) (state : σ) :
    (∃ e, (op.run state).1 = .error e ∧
      (op >>= fun _ => op').run state = (.error e, (op.run state).2)) ∨
    (op.run state).1 = .ok () ∧
      (op >>= fun _ => op').run state = op'.run (op.run state).2 := by
  have hrun : (op >>= fun _ => op').run state =
      ExceptT.bindCont (fun _ => op') (op.run state).1 (op.run state).2 := rfl
  rw [hrun]
  cases (op.run state).1 with
  | error e => exact .inl ⟨e, rfl, rfl⟩
  | ok => exact .inr ⟨rfl, rfl⟩

variable (V) in
/-- From states that have `I`, which it keeps up, an operation touches one type only.  If it
succeeds it has its effect, and if it fails its error is one to blame on it. -/
structure Effects (I : σ → Prop) (blame : ε → Prop) (type : String) (effect : σ → σ → Prop)
    (op : ExceptT ε (StateM σ) Unit) : Prop where
  keeps : ∀ state, I state → I (op.run state).2
  others : ∀ state, I state → ∀ other, other ≠ type → V.Untouched other state (op.run state).2
  done : ∀ state, I state → (op.run state).1 = .ok () → effect state (op.run state).2
  blamed : ∀ state, I state → ∀ e, (op.run state).1 = .error e → blame e

namespace Effects

/-- An effect brings whatever follows from it. -/
theorem mono (h : V.Effects I blame type effect op)
    (himp : ∀ before after, effect before after → effect' before after) :
    V.Effects I blame type effect' op :=
  ⟨h.keeps, h.others, fun state hI hok => himp _ _ (h.done state hI hok), h.blamed⟩

/-- To do nothing leaves the type untouched. -/
theorem nothing : V.Effects I blame type (V.Untouched type) (pure ()) where
  keeps _ hI := hI
  others state _ other _ := .refl other state
  done state _ _ := .refl type state
  blamed _ _ _ herror := by cases herror

/-- The second operation is carried out if the first one succeeds. -/
theorem andThen (h : V.Effects I blame type effect op) (h' : V.Effects I blame type effect' op') :
    V.Effects I blame type
      (fun before after => ∃ middle, effect before middle ∧ effect' middle after)
      (op >>= fun _ => op') := by
  constructor
  · intro state hI
    rcases run_andThen op op' state with ⟨e, -, hboth⟩ | ⟨-, hboth⟩
    · rw [hboth]
      exact h.keeps state hI
    · rw [hboth]
      exact h'.keeps _ (h.keeps state hI)
  · intro state hI other hother
    rcases run_andThen op op' state with ⟨e, -, hboth⟩ | ⟨-, hboth⟩
    · rw [hboth]
      exact h.others state hI other hother
    · rw [hboth]
      exact (h.others state hI other hother).trans (h'.others _ (h.keeps state hI) other hother)
  -- both succeed, so the first did, and the second goes on from what it has left
  · intro state hI hok
    rcases run_andThen op op' state with ⟨e, -, hboth⟩ | ⟨hfirst, hboth⟩
    · rw [hboth] at hok
      cases hok
    · rw [hboth] at hok ⊢
      exact ⟨_, h.done state hI hfirst, h'.done _ (h.keeps state hI) hok⟩
  -- the failure is that of the first, or of the second on what the first has left
  · intro state hI e herror
    rcases run_andThen op op' state with ⟨e', hfirst, hboth⟩ | ⟨-, hboth⟩
    · rw [hboth] at herror
      obtain rfl := Except.error.inj herror
      exact h.blamed state hI _ hfirst
    · rw [hboth] at herror
      exact h'.blamed _ (h.keeps state hI) e herror

end Effects

/-! ## Collections -/

/-- The error of a collection that has stopped at a type. -/
def Blames (agent type : String) (chain : ErrorChain) : Prop :=
  ∃ e : DomainError, chain = ["Failed to merge " ++ type ++ " for agent " ++ agent, e.message] ∨
    chain = ["Failed to evict " ++ type ++ " for agent " ++ agent, e.message]

/-- An operation has the same effect when its failure is reported with a context. -/
theorem Effects.within {op : ExceptT DomainError (StateM σ) Unit} {context : String}
    {blame : ErrorChain → Prop} (h : V.Effects I (fun _ => True) type effect op)
    (hblame : ∀ e : DomainError, blame [context, e.message]) :
    V.Effects I blame type effect (Collection.within context op) := by
  -- the context is added to a failure, and the state is what the operation has left
  have hrun (state : σ) : (Collection.within context op).run state =
      ((op.run state).1.mapError fun e => [context, e.message], (op.run state).2) := by
    rw [Collection.within, ExceptT.run_mk]
    show StateT.bind op.run _ state = _
    rw [StateT.bind]
    generalize op.run state = outcome
    obtain ⟨_ | _, after⟩ := outcome <;> rfl
  constructor
  · intro state hI
    rw [hrun]
    exact h.keeps state hI
  · intro state hI other hother
    rw [hrun]
    exact h.others state hI other hother
  · intro state hI hok
    rw [hrun] at hok ⊢
    refine h.done state hI ?_
    cases hfirst : (op.run state).1 with
    | error e =>
      rw [hfirst] at hok
      cases hok
    | ok => rfl
  · intro state hI e herror
    rw [hrun] at herror
    cases hfirst : (op.run state).1 with
    | error e' =>
      rw [hfirst] at herror
      obtain rfl := Except.error.inj herror
      exact hblame e'
    | ok =>
      rw [hfirst] at herror
      cases herror

variable (V) in
/-- The two operations of a writer have their effects, on items of a kind. -/
structure Writes (I : σ → Prop) (kind : Item → Prop) (w : Writer (StateM σ)) : Prop where
  mergeAll : ∀ type items, (∀ item ∈ items, kind item) →
    V.Effects I (fun _ => True) type (V.Written type items []) (w.mergeAll type items)
  evictAll : ∀ type ids,
    V.Effects I (fun _ => True) type (V.Written type [] ids) (w.evictAll type ids)

variable {kind : Item → Prop} {w : Writer (StateM σ)} {s : Snapshot} {agent : String}
  {order : List String} {state : σ}

variable (V) in
/-- A type of a snapshot has been written. -/
def WrittenFrom (s : Snapshot) (type : String) (before after : σ) : Prop :=
  V.Written type (s.items.getD type []) (s.evictions.getD type []) before after

/-- Writing a type of a snapshot has its effect on the type. -/
theorem effects_writeType (hw : V.Writes I kind w) (htype : type ∈ s.types)
    (hkind : ∀ item ∈ s.items.getD type [], kind item) :
    V.Effects I (Blames agent type) type (V.WrittenFrom s type) (writeType w agent s type) := by
  rw [writeType_eq, mergeType, evictType]
  unfold WrittenFrom
  rw [Std.ExtTreeMap.getD_eq_getD_getElem?] at hkind
  rw [Std.ExtTreeMap.getD_eq_getD_getElem?, Std.ExtTreeMap.getD_eq_getD_getElem?]
  have hmerge (items : List Item) (hitems : ∀ item ∈ items, kind item) :
      V.Effects I (Blames agent type) type (V.Written type items [])
        (within ("Failed to merge " ++ type ++ " for agent " ++ agent) (w.mergeAll type items)) :=
    (hw.mergeAll type items hitems).within fun e => ⟨e, .inl rfl⟩
  have hevict (ids : List String) :
      V.Effects I (Blames agent type) type (V.Written type [] ids)
        (within ("Failed to evict " ++ type ++ " for agent " ++ agent) (w.evictAll type ids)) :=
    (hw.evictAll type ids).within fun e => ⟨e, .inr rfl⟩
  -- a type of the snapshot has items, evictions or both, and what is missing is not done
  cases hitems : s.items[type]? with
  | none =>
    cases hids : s.evictions[type]? with
    | none =>
      rw [Snapshot.mem_types, ← Std.ExtTreeMap.isSome_getElem?_iff_mem,
        ← Std.ExtTreeMap.isSome_getElem?_iff_mem, hitems, hids] at htype
      simp at htype
    | some ids =>
      refine (Effects.nothing.andThen (hevict ids)).mono ?_
      rintro before after ⟨middle, hmerged, hevicted⟩
      exact hmerged.written hevicted
  | some items =>
    rw [hitems] at hkind
    cases hids : s.evictions[type]? with
    | none =>
      refine ((hmerge items hkind).andThen .nothing).mono ?_
      rintro before after ⟨middle, hmerged, hevicted⟩
      exact hmerged.untouched hevicted
    | some ids =>
      refine ((hmerge items hkind).andThen (hevict ids)).mono ?_
      rintro before after ⟨middle, hmerged, hevicted⟩
      exact hmerged.evict hevicted

/-- Types that are written one after another have their effects, each on itself.  If one of them
fails, those before it have been written and those after it have not been touched. -/
theorem run_writeTypes (hw : ∀ type ∈ order,
      V.Effects I (Blames agent type) type (V.WrittenFrom s type) (writeType w agent s type))
    (horder : order.Nodup) (hI : I state) :
    ((writeTypes w agent s order).run state).1 = .ok () ∧
        (∀ type ∈ order, V.WrittenFrom s type state ((writeTypes w agent s order).run state).2) ∧
        (∀ type ∉ order, V.Untouched type state ((writeTypes w agent s order).run state).2) ∨
      ∃ chain done failed rest,
        ((writeTypes w agent s order).run state).1 = .error chain ∧
        order = done ++ failed :: rest ∧ Blames agent failed chain ∧
        (∀ type ∈ done, V.WrittenFrom s type state ((writeTypes w agent s order).run state).2) ∧
        ∀ type ∉ done, type ≠ failed →
          V.Untouched type state ((writeTypes w agent s order).run state).2 := by
  -- the types are written in turn; what is written of one is untouched by all that follow
  induction order generalizing state with
  | nil => exact .inl ⟨rfl, List.forall_mem_nil _, fun type _ => .refl type state⟩
  | cons type rest ih =>
    obtain ⟨htype, hrest⟩ := List.forall_mem_cons.1 hw
    obtain ⟨hnotMem, hnodup⟩ := List.nodup_cons.1 horder
    have hothers := htype.others state hI
    have hcons : writeTypes w agent s (type :: rest) =
        writeType w agent s type >>= fun _ => writeTypes w agent s rest := rfl
    rw [hcons]
    rcases run_andThen (writeType w agent s type) (writeTypes w agent s rest) state with
      ⟨chain, hfirst, hboth⟩ | ⟨hfirst, hboth⟩
    -- the first type fails: it is the one to blame, and nothing else has been touched
    · rw [hboth]
      exact .inr ⟨chain, [], type, rest, rfl, rfl, htype.blamed state hI chain hfirst,
        List.forall_mem_nil _, fun other _ hother => hothers other hother⟩
    · rw [hboth]
      have hwritten := htype.done state hI hfirst
      have hne {other : String} (hother : other ∈ rest) : other ≠ type :=
        fun heq => hnotMem (heq ▸ hother)
      rcases ih hrest hnodup (htype.keeps state hI) with
        ⟨hok, hall, huntouched⟩ | ⟨chain, done, failed, after, herror, rfl, hblames, hdone, hleft⟩
      · refine .inl ⟨hok, List.forall_mem_cons.2 ⟨hwritten.untouched (huntouched type hnotMem),
          fun other hother => (hothers other (hne hother)).written (hall other hother)⟩, ?_⟩
        intro other hother
        rw [List.mem_cons, not_or] at hother
        exact (hothers other hother.1).trans (huntouched other hother.2)
      · refine .inr ⟨chain, type :: done, failed, after, herror, rfl, hblames,
          List.forall_mem_cons.2 ⟨?_, fun other hother => ?_⟩, fun other hother hfailed => ?_⟩
        · simp only [List.mem_append, List.mem_cons, not_or] at hnotMem
          exact hwritten.untouched (hleft type hnotMem.1 hnotMem.2.1)
        · exact (hothers other (hne (by simp [hother]))).written (hdone other hother)
        · rw [List.mem_cons, not_or] at hother
          exact (hothers other hother.1).trans (hleft other hother.2 hfailed)

variable (V) in
/-- A snapshot has been written to a cache, and nothing else has. -/
structure Collected (s : Snapshot) (before after : σ) : Prop where
  written : ∀ type ∈ s.types, V.WrittenFrom s type before after
  others : ∀ type ∉ s.types, V.Untouched type before after

variable (V) in
/-- A collection has stopped at a type that its error names.  The types before it, in the order of
their bytes, have been written, and those after it have not been touched. -/
structure Stopped (agent : String) (s : Snapshot) (chain : ErrorChain) (failed : String)
    (before after : σ) : Prop where
  mem : failed ∈ s.types
  blames : Blames agent failed chain
  written : ∀ type ∈ s.types, Text.bytes type < Text.bytes failed →
    V.WrittenFrom s type before after
  untouched : ∀ type ∈ s.types, Text.bytes failed < Text.bytes type →
    V.Untouched type before after
  others : ∀ type ∉ s.types, V.Untouched type before after

section Collect

variable (hw : V.Writes I kind w)
  (hkind : ∀ type ∈ s.types, ∀ item ∈ s.items.getD type [], kind item) (hI : I state)

include hw hkind hI

/-- In whatever order the types of a snapshot are written, once this has succeeded the snapshot has
been written. -/
theorem collected_of_ok (horder : order.Perm s.types)
    (hok : ((writeTypes w agent s order).run state).1 = .ok ()) :
    V.Collected s state ((writeTypes w agent s order).run state).2 := by
  have hmem (type : String) : type ∈ order ↔ type ∈ s.types := horder.mem_iff
  have heffects : ∀ type ∈ order,
      V.Effects I (Blames agent type) type (V.WrittenFrom s type) (writeType w agent s type) :=
    fun type htype => effects_writeType hw ((hmem type).1 htype) (hkind type ((hmem type).1 htype))
  rcases run_writeTypes heffects (horder.nodup_iff.2 s.nodup_types) hI with
    ⟨-, hwritten, huntouched⟩ | ⟨chain, done, failed, rest, herror, -⟩
  · exact ⟨fun type htype => hwritten type ((hmem type).2 htype),
      fun type htype => huntouched type (mt (hmem type).1 htype)⟩
  · rw [hok] at herror
    cases herror

/-- If writing the types in their order fails, it has stopped at one of them. -/
theorem stopped_of_error {chain : ErrorChain}
    (herror : ((writeTypes w agent s s.types).run state).1 = .error chain) :
    ∃ failed,
      V.Stopped agent s chain failed state ((writeTypes w agent s s.types).run state).2 := by
  have heffects : ∀ type ∈ s.types,
      V.Effects I (Blames agent type) type (V.WrittenFrom s type) (writeType w agent s type) :=
    fun type htype => effects_writeType hw htype (hkind type htype)
  rcases run_writeTypes heffects s.nodup_types hI with
    ⟨hok, -⟩ | ⟨chain', done, failed, rest, herror', htypes, hblames, hwritten, huntouched⟩
  · rw [herror] at hok
    cases hok
  · obtain rfl := Except.error.inj (herror.symm.trans herror')
    -- the types are in byte order, so those before the one that failed are the ones done
    have hsorted := s.types_sorted
    rw [htypes, List.pairwise_append, List.pairwise_cons] at hsorted
    obtain ⟨-, ⟨hrest, -⟩, hdone⟩ := hsorted
    have hmem {type : String} : type ∈ s.types ↔ type ∈ done ∨ type = failed ∨ type ∈ rest := by
      rw [htypes, List.mem_append, List.mem_cons]
    refine ⟨failed, hmem.2 (.inr (.inl rfl)), hblames, ?_, ?_, ?_⟩
    · intro type htype hlt
      rw [← Text.lt_iff_bytes_lt] at hlt
      rcases hmem.1 htype with hdone | rfl | hafter
      · exact hwritten type hdone
      · exact absurd hlt (lt_irrefl _)
      · exact absurd hlt (lt_asymm (hrest type hafter))
    · intro type htype hlt
      rw [← Text.lt_iff_bytes_lt] at hlt
      refine huntouched type (fun hbefore => ?_) hlt.ne'
      exact lt_asymm hlt (hdone type hbefore failed List.mem_cons_self)
    · intro type htype
      rw [hmem, not_or, not_or] at htype
      exact huntouched type htype.1 htype.2.1

end Collect

end Outlook

end EntityCache
