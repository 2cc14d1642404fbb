import EntityCache.Proofs.Cache.Direct
import EntityCache.Proofs.Cache.Relisting

/-!
# Collections that are made again

An agent collects again and again, and what it has loaded may be the same as the last time.  Writing
a snapshot a second time leaves a cache as the first time has left it, and comes to the same result
(`collect_twice`), whatever the cache holds and whether or not the collection stops at a type.  If
the same contents come in other maps, which list them in other orders, the second time leaves what
it leaves by itself.

For a direct cache this is so because a write settles every part of every entity.  For a cache on a
store the requests settle what the store holds, once they are the same requests but for the order in
which maps are listed.  They are: the only thing that a collection reads is the index of a type,
before it evicts, and it reads the names that were there together with those that it has itself
added, which is what the index has from then on.
-/

namespace EntityCache

open Collection

section Halves

variable {m : Type → Type} [Monad m] (w : Writer m) (agent : String) (s : Snapshot) (type : String)

/-- Merges the items of a type, if the snapshot has any. -/
def mergeType : ExceptT ErrorChain m Unit :=
  match s.items[type]? with
  | some items =>
    within ("Failed to merge " ++ type ++ " for agent " ++ agent) (w.mergeAll type items)
  | none => pure ()

/-- Evicts the ids of a type, if the snapshot has any. -/
def evictType : ExceptT ErrorChain m Unit :=
  match s.evictions[type]? with
  | some ids =>
    within ("Failed to evict " ++ type ++ " for agent " ++ agent) (w.evictAll type ids)
  | none => pure ()

/-- A type is written in two halves. -/
theorem writeType_eq [LawfulMonad m] :
    writeType w agent s type = mergeType w agent s type >>= fun _ => evictType w agent s type := by
  rw [writeType, mergeType, evictType]
  cases s.items[type]? with
  | none => exact (pure_bind () fun _ => evictType w agent s type).symm
  | some items => rfl

end Halves

/-! ## Direct caches -/

namespace DirectCache

/-- A part of an entity that a write keeps or fixes by itself. -/
inductive Part where
  | presence
  | id
  | attributes
  | relationship (name : String)

namespace Part

/-- The type of a part. -/
def Value : Part → Type
  | presence => Bool
  | id => String
  | attributes => Attributes
  | relationship _ => Option Names

/-- A part of the entity that is kept under a key, if there is one. -/
def of (key : String) : (p : Part) → Option Entity → p.Value
  | presence, e => e.isSome
  | id, e => (e.map Entity.id).getD key
  | attributes, e => (e.map Entity.attributes).getD ∅
  | relationship name, e => e.bind (·.relationships[name]?)

/-- An entity is told from its parts. -/
theorem ext {key : String} {e e' : Option Entity} (h : ∀ p : Part, p.of key e = p.of key e') :
    e = e' := by
  cases e with
  | none =>
    cases e' with
    | none => rfl
    | some e' => cases h presence
  | some e =>
    cases e' with
    | none => cases h presence
    | some e' =>
      have hrelationships : e.relationships = e'.relationships :=
        Std.ExtTreeMap.ext_getElem? fun {name} => h (relationship name)
      obtain ⟨id, attributes, relationships⟩ := e
      obtain rfl : id = e'.id := h Part.id
      obtain rfl : attributes = e'.attributes := h Part.attributes
      obtain rfl : relationships = e'.relationships := hrelationships
      rfl

/-- Merging an item keeps or fixes every part of the entity of an id. -/
theorem settles_upsertItem (key : String) (item : Item) (p : Part) :
    Settles (p.of key) (upsertItem key · item) := by
  by_cases hitem : item.isBlank = false ∧ item.id = key
  · have hupsert (e : Option Entity) : upsertItem key e item = some (laidOver e item) :=
      if_pos hitem
    -- an item that is not blank fixes the presence, and of the other parts those that it has
    cases p with
    | presence => exact .fixes true fun e => by rw [hupsert]; rfl
    | id =>
      refine .keeps fun e => ?_
      rw [hupsert]
      cases e with
      | none => exact hitem.2
      | some e => rfl
    | attributes =>
      have hof (e : Option Entity) : Part.attributes.of key (upsertItem key e item) =
          if item.attributes.isEmpty then Part.attributes.of key e else item.attributes := by
        rw [hupsert]
        exact attributes_laidOver e item
      by_cases hempty : item.attributes.isEmpty
      · exact .keeps fun e => (hof e).trans (if_pos hempty)
      · exact .fixes item.attributes fun e => (hof e).trans (if_neg hempty)
    | relationship name =>
      have hof (e : Option Entity) : (Part.relationship name).of key (upsertItem key e item) =
          item.relationships[name]?.or ((Part.relationship name).of key e) := by
        rw [hupsert]
        exact relationships_laidOver e item name
      cases hname : item.relationships[name]? with
      | none => exact .keeps fun e => by rw [hof, hname]; rfl
      | some ids => exact .fixes (some ids) fun e => by rw [hof, hname]; rfl
  · exact .keeps fun e => by rw [upsertItem, if_neg hitem]

end Part

/-- A part of an entity of a cache. -/
def part (type id : String) (p : Part) (d : DirectCache) : p.Value := p.of id (d.entities type)[id]?

/-- A cache is told from its types and the parts of its entities. -/
theorem eq_of_parts {d d' : DirectCache} (htypes : ∀ type, type ∈ d.types ↔ type ∈ d'.types)
    (hparts : ∀ type id p, d.part type id p = d'.part type id p) : d = d' := by
  have hentities (type : String) : d.entities type = d'.entities type := by
    apply Std.ExtTreeMap.ext_getElem?
    intro id
    exact Part.ext fun p => hparts type id p
  obtain ⟨types⟩ := d
  obtain ⟨types'⟩ := d'
  congr 1
  apply Std.ExtTreeMap.ext_getElem?
  intro type
  have htype := htypes type
  have hsame : types.getD type ∅ = types'.getD type ∅ := hentities type
  rw [← Std.ExtTreeMap.isSome_getElem?_iff_mem, ← Std.ExtTreeMap.isSome_getElem?_iff_mem] at htype
  rw [Std.ExtTreeMap.getD_eq_getD_getElem?, Std.ExtTreeMap.getD_eq_getD_getElem?] at hsame
  revert htype hsame
  cases types[type]? <;> cases types'[type]? <;> simp

/-- A change settles all that there is to see of a cache. -/
structure SettlesAll (f : DirectCache → DirectCache) : Prop where
  types : ∀ type, Settles (fun d : DirectCache => type ∈ d.types) f
  parts : ∀ type id p, Settles (part type id p) f

namespace SettlesAll

variable {f g : DirectCache → DirectCache}

/-- What changes nothing settles everything. -/
theorem id : SettlesAll fun d => d where
  types _ := .keeps fun _ => rfl
  parts _ _ _ := .keeps fun _ => rfl

/-- Of two changes in turn, the later one that fixes a part decides it; a part that neither fixes is
kept. -/
theorem comp (hg : SettlesAll g) (hf : SettlesAll f) : SettlesAll fun d => g (f d) where
  types type := (hg.types type).comp (hf.types type)
  parts type id p := (hg.parts type id p).comp (hf.parts type id p)

/-- A change that settles everything does nothing the second time. -/
theorem again (h : SettlesAll f) (d : DirectCache) : f (f d) = f d :=
  eq_of_parts (fun type => iff_of_eq ((h.types type).again d)) fun type id p =>
    (h.parts type id p).again d

end SettlesAll

/-- A merge fixes the parts that its items write and keeps the others. -/
theorem settlesAll_mergeAll (type : String) (items : List Item) :
    SettlesAll (mergeAll · type items) where
  types type' := by
    by_cases hitems : items.isEmpty
    · exact .keeps fun d => by rw [mergeAll, if_pos hitems]
    by_cases htype : type = type'
    · exact .fixes True fun d => by simp [mergeAll, hitems, htype]
    · exact .keeps fun d => by simp [mergeAll, hitems, htype]
  parts type' id p := by
    by_cases htype : type = type'
    · subst htype
      have hpart (d : DirectCache) : (d.mergeAll type items).part type id p =
          p.of id (items.foldl (upsertItem id) (d.entities type)[id]?) := by
        rw [part, entities_mergeAll, if_pos rfl, getElem?_foldl_mergeItem]
      -- what happens to a part is a list of changes, each of which settles it
      have hfold : Settles (p.of id) (items.foldl (upsertItem id)) :=
        .foldl fun item _ => p.settles_upsertItem id item
      rcases hfold with hkeep | ⟨a, ha⟩
      · exact .keeps fun d => (hpart d).trans (hkeep _)
      · exact .fixes a fun d => (hpart d).trans (ha _)
    · exact .keeps fun d => by rw [part, entities_mergeAll, if_neg htype]; rfl

/-- An eviction fixes the entities that it takes away and keeps the others; types stay. -/
theorem settlesAll_evictAll (type : String) (ids : List String) :
    SettlesAll (evictAll · type ids) where
  types type' := by
    refine .keeps fun d => ?_
    unfold evictAll
    split
    case h_1 => rfl
    case h_2 stored hstored =>
      -- only a type that is there is written, so none becomes known
      have hthere : type ∈ d.types := Std.ExtTreeMap.isSome_getElem?_iff_mem.1 (by simp [hstored])
      by_cases htype : type = type'
      · subst htype
        simp [hthere]
      · simp [htype]
  parts type' id p := by
    by_cases hid : type = type' ∧ id ∈ ids
    · exact .fixes (p.of id none) fun d => by
        rw [part, getElem?_entities_evictAll, if_pos hid]
    · exact .keeps fun d => by rw [part, getElem?_entities_evictAll, if_neg hid]; rfl

/-- An operation that succeeds on every cache, and settles it. -/
def Steady (a : ExceptT ErrorChain (StateM DirectCache) Unit) : Prop :=
  ∃ f, SettlesAll f ∧ ∀ d, a.run d = (.ok (), f d)

namespace Steady

variable {a b : ExceptT ErrorChain (StateM DirectCache) Unit}

theorem pure : Steady (pure ()) := ⟨_, .id, fun _ => rfl⟩

/-- Steady operations in turn are steady. -/
theorem bind (ha : Steady a) (hb : Steady b) : Steady (a >>= fun _ => b) := by
  obtain ⟨f, hf, hrun⟩ := ha
  obtain ⟨g, hg, hrun'⟩ := hb
  refine ⟨_, hg.comp hf, fun d => ?_⟩
  show ExceptT.bindCont (fun _ => b) (a.run d).1 (a.run d).2 = _
  rw [hrun]
  exact hrun' (f d)

/-- The writes of a cycle are steady, type by type. -/
theorem writeTypes (agent : String) (s : Snapshot) (types : List String) :
    Steady (writeTypes writer agent s types) := by
  induction types with
  | nil => exact .pure
  | cons type rest ih =>
    refine .bind ?_ ih
    rw [writeType_eq]
    refine .bind ?_ ?_
    · rw [mergeType]
      cases s.items[type]? with
      | none => exact .pure
      | some items => exact ⟨_, settlesAll_mergeAll type items, fun _ => rfl⟩
    · rw [evictType]
      cases s.evictions[type]? with
      | none => exact .pure
      | some ids => exact ⟨_, settlesAll_evictAll type ids, fun _ => rfl⟩

end Steady

/-- A collection into a direct cache that is made again leaves it as it is. -/
theorem run_collect_again (agent : String) (load : Load) (d : DirectCache) :
    (collect writer agent load).run ((collect writer agent load).run d).2 =
      (collect writer agent load).run d := by
  match load with
  | .unsupported | .loaded (.error _) => rfl
  | .loaded (.ok s) =>
    obtain ⟨f, hf, hrun⟩ := Steady.writeTypes agent s s.types
    show (writeTypes writer agent s s.types).run ((writeTypes writer agent s s.types).run d).2 =
      (writeTypes writer agent s s.types).run d
    rw [hrun, hrun, hf.again]

/-- A direct cache cannot tell in which order maps are listed. -/
theorem run_collect_congr (agent : String) {load load' : Load} (h : load.Alike load')
    (d : DirectCache) :
    (collect writer agent load).run d = (collect writer agent load').run d := by
  cases h with
  | refl => rfl
  | @snapshots s s' h =>
    -- item by item the lists differ in their order only, which no merge sees
    have htypes (types : List String) :
        writeTypes writer agent s types = writeTypes writer agent s' types := by
      induction types with
      | nil => rfl
      | cons type rest ih =>
        have hmerge : mergeType writer agent s type = mergeType writer agent s' type := by
          have hitems := h.items type
          rw [mergeType, mergeType]
          revert hitems
          cases s.items[type]? with
          | none => cases s'.items[type]? <;> simp
          | some items =>
            cases s'.items[type]? with
            | none => simp
            | some items' =>
              intro hsame
              have hwrite : writer.mergeAll type items = writer.mergeAll type items' :=
                funext fun d => congrArg (Prod.mk _) (mergeAll_congr (Option.some.inj hsame) d type)
              simp only [hwrite]
        have hevict : evictType writer agent s type = evictType writer agent s' type := by
          rw [evictType, evictType, h.evictions]
        rw [writeTypes, writeTypes, writeType_eq, writeType_eq, hmerge, hevict, ih]
    show (writeTypes writer agent s s.types).run d = (writeTypes writer agent s' s'.types).run d
    rw [htypes, h.types_eq]

end DirectCache

/-! ## Caches on a store -/

namespace KeyValueCache

open Store (Memory Request Calls)

/-- On the stores of a kind an operation makes these requests and comes to this result, and it
leaves a store of the kind.  If it does not fail, the store it leaves is of another kind too. -/
def Comes {ε : Type} (P Q : Memory → Prop) (a : ExceptT ε Calls Unit) (rs : List Request)
    (result : Except ε Unit) : Prop :=
  ∀ m, P m → Program.run Memory.serve a.run m = (result, m.answerAll rs) ∧
    P (m.answerAll rs) ∧ (result = .ok () → Q (m.answerAll rs))

namespace Comes

variable {ε : Type} {P Q R : Memory → Prop} {a b : ExceptT ε Calls Unit} {rs rs' : List Request}
  {result : Except ε Unit}

theorem pure (h : ∀ m, P m → Q m) : Comes P Q (pure () : ExceptT ε Calls Unit) [] (.ok ()) :=
  fun m hm => ⟨rfl, hm, fun _ => h m hm⟩

theorem throw (e : ε) : Comes P Q (throw e : ExceptT ε Calls Unit) [] (.error e) :=
  fun _ hm => ⟨rfl, hm, nofun⟩

/-- An operation leaves at least the kind of store that it started from. -/
theorem kept (h : Comes P Q a rs result) : Comes P P a rs result :=
  fun m hm => ⟨(h m hm).1, (h m hm).2.1, fun _ => (h m hm).2.1⟩

/-- The second operation may rely on more than the first, as long as it keeps that up. -/
theorem bind (ha : Comes P Q a rs (.ok ())) (hQ : ∀ m, Q m → P m) (hb : Comes Q R b rs' result) :
    Comes P R (a >>= fun _ => b) (rs ++ rs') result := by
  intro m hm
  obtain ⟨hfirst, -, hleft⟩ := ha m hm
  obtain ⟨hsecond, hkept, hlast⟩ := hb _ (hleft rfl)
  rw [Memory.answerAll_append]
  refine ⟨?_, hQ _ hkept, hlast⟩
  show (Program.bind a.run (ExceptT.bindCont fun _ => b)).run Memory.serve m = _
  rw [Program.run_bind, hfirst]
  exact hsecond

/-- Nothing follows an operation that fails. -/
theorem bind_error {e : ε} (ha : Comes P Q a rs (.error e)) :
    Comes P R (a >>= fun _ => b) rs (.error e) := by
  intro m hm
  refine ⟨?_, (ha m hm).2.1, nofun⟩
  show (Program.bind a.run (ExceptT.bindCont fun _ => b)).run Memory.serve m = _
  rw [Program.run_bind, (ha m hm).1]
  rfl

/-- A failure is reported with its context, whatever it is. -/
theorem within {a : Action Unit} {result : Except DomainError Unit} (context : String)
    (h : Comes P Q a rs result) : Comes P Q (Collection.within context a) rs
      (result.mapError fun e => [context, e.message]) := by
  intro m hm
  obtain ⟨hfirst, hkept, hleft⟩ := h m hm
  refine ⟨?_, hkept, fun hok => hleft ?_⟩
  · show (Program.bind a.run _).run Memory.serve m = _
    rw [Program.run_bind, hfirst]
    cases result <;> rfl
  · cases result with
    | error e => cases hok
    | ok => rfl

/-- A request is made, and what follows is the same on every store of the kind. -/
theorem call {result : Except DomainError Unit} {r : Request} {f : r.Answer → Action Unit}
    (a : r.Answer) (hleft : ∀ m, P m → Q (m.answer r).2) (hQ : ∀ m, Q m → P m)
    (hf : ∀ m, P m → f (m.answer r).1 = f a) (hnext : Comes Q R (f a) rs result) :
    Comes P R (call r >>= f) (r :: rs) result := by
  intro m hm
  obtain ⟨hrest, hkept, hlast⟩ := hnext _ (hleft m hm)
  refine ⟨?_, hQ _ hkept, hlast⟩
  rw [← hf m hm] at hrest
  exact hrest

end Comes

/-- On the stores of a kind two operations come to the same result, and the second makes the
requests of the first, but for the order in which maps are listed. -/
def Steady {ε : Type} (P Q : Memory → Prop) (a b : ExceptT ε Calls Unit) : Prop :=
  ∃ (rs rs' : List Request) (result : Except ε Unit), (∀ key, .sadd key [] ∉ rs) ∧
    List.Forall₂ Relists rs rs' ∧ Comes P Q a rs result ∧ Comes P Q b rs' result

namespace Steady

variable {ε : Type} {P Q R : Memory → Prop} {a a' b b' : ExceptT ε Calls Unit}

theorem pure (h : ∀ m, P m → Q m) :
    Steady P Q (pure () : ExceptT ε Calls Unit) (pure () : ExceptT ε Calls Unit) :=
  ⟨[], [], .ok (), fun _ => List.not_mem_nil, .nil, .pure h, .pure h⟩

/-- A failure at once is the same failure on every store. -/
theorem throw (e : ε) :
    Steady P Q (throw e : ExceptT ε Calls Unit) (throw e : ExceptT ε Calls Unit) :=
  ⟨[], [], .error e, fun _ => List.not_mem_nil, .nil, .throw e, .throw e⟩

/-- Steady operations leave at least the kind of store that they started from. -/
theorem kept (h : Steady P Q a b) : Steady P P a b := by
  obtain ⟨rs, rs', result, hrs, hrelists, hrun, hrun'⟩ := h
  exact ⟨rs, rs', result, hrs, hrelists, hrun.kept, hrun'.kept⟩

/-- Steady operations in turn are steady; where the first fails, both stop. -/
theorem bind (ha : Steady P Q a a') (hQ : ∀ m, Q m → P m) (hb : Steady Q R b b') :
    Steady P R (a >>= fun _ => b) (a' >>= fun _ => b') := by
  obtain ⟨rs, rs', result, hrs, hrelists, hrun, hrun'⟩ := ha
  obtain ⟨rest, rest', last, hrest, hrelists', hnext, hnext'⟩ := hb
  cases result with
  | error e => exact ⟨rs, rs', .error e, hrs, hrelists, hrun.bind_error, hrun'.bind_error⟩
  | ok =>
    refine ⟨rs ++ rest, rs' ++ rest', last, fun key hmem => ?_, List.rel_append hrelists hrelists',
      hrun.bind hQ hnext, hrun'.bind hQ hnext'⟩
    exact (List.mem_append.1 hmem).elim (hrs key) (hrest key)

/-- Steady operations are steady in any context of an error. -/
theorem within {a b : Action Unit} (context : String) (h : Steady P Q a b) :
    Steady P Q (Collection.within context a) (Collection.within context b) := by
  obtain ⟨rs, rs', result, hrs, hrelists, hrun, hrun'⟩ := h
  exact ⟨rs, rs', _, hrs, hrelists, hrun.within context, hrun'.within context⟩

/-- A request is made, or one that relists it, and what follows is the same on every store. -/
theorem call {r r' : Request} {f : r.Answer → Action Unit} {f' : r'.Answer → Action Unit}
    (a : r.Answer) (a' : r'.Answer) (hr : ∀ key, r ≠ .sadd key []) (hrelists : Relists r r')
    (hleft : ∀ m, P m → Q (m.answer r).2) (hleft' : ∀ m, P m → Q (m.answer r').2)
    (hQ : ∀ m, Q m → P m) (hf : ∀ m, P m → f (m.answer r).1 = f a)
    (hf' : ∀ m, P m → f' (m.answer r').1 = f' a') (hnext : Steady Q R (f a) (f' a')) :
    Steady P R (KeyValueCache.call r >>= f) (KeyValueCache.call r' >>= f') := by
  obtain ⟨rs, rs', result, hrs, hrest, hrun, hrun'⟩ := hnext
  refine ⟨r :: rs, r' :: rs', result, fun key hmem => ?_, .cons hrelists hrest,
    hrun.call a hleft hQ hf, hrun'.call a' hleft' hQ hf'⟩
  exact (List.mem_cons.1 hmem).elim (fun h => hr key h.symm) (hrs key)

/-- After the first operation the second comes to the result, and leaves the store, that it comes to
and leaves without it. -/
theorem again (h : Steady P Q a b) {m : Memory} (hm : P m) :
    Program.run Memory.serve b.run (Program.run Memory.serve a.run m).2 =
      Program.run Memory.serve b.run m := by
  obtain ⟨rs, rs', result, hrs, hrelists, hrun, hrun'⟩ := h
  obtain ⟨hfirst, hkept, -⟩ := hrun m hm
  rw [hfirst, (hrun' _ hkept).1, (hrun' m hm).1, answerAll_relisting hrelists hrs]

/-- Both come to the same result, and leave the same but for the order in which maps are listed. -/
theorem relisted (h : Steady P Q a b) {m : Memory} (hm : P m) :
    (Program.run Memory.serve a.run m).1 = (Program.run Memory.serve b.run m).1 ∧
      Relisted (Program.run Memory.serve a.run m).2 (Program.run Memory.serve b.run m).2 := by
  obtain ⟨rs, rs', result, -, hrelists, hrun, hrun'⟩ := h
  rw [(hrun m hm).1, (hrun' m hm).1]
  exact ⟨rfl, relisted_answerAll hrelists (.refl m)⟩

end Steady

variable (c : KeyValueCache) {s : Snapshot} {known : String → Names} {m : Memory} {type : String}

/-- The names of relationships that a snapshot adds to the index of a type. -/
def namesOf (s : Snapshot) (type : String) : List String :=
  relationshipNames (s.items.getD type [])

/-- The names that the index of a type has, and those of the snapshot, are the known ones. -/
def Expects (s : Snapshot) (known : String → Names) (m : Memory) : Prop :=
  ∀ type, ValidType type → m.setOf (c.indexKey type) ∪ .ofList (namesOf s type) = known type

/-- The index of one type has the known names already. -/
structure Filled (s : Snapshot) (known : String → Names) (type : String) (m : Memory) : Prop where
  expects : c.Expects s known m
  index : ValidType type → m.setOf (c.indexKey type) = known type

/-- Where the indexes are as before, so is what is known. -/
theorem Filled.of_index {m' : Memory} (h : c.Filled s known type m)
    (hindex : ∀ type, ValidType type → m'.setOf (c.indexKey type) = m.setOf (c.indexKey type)) :
    c.Filled s known type m' where
  expects type' htype' := by rw [hindex type' htype', h.expects type' htype']
  index htype := by rw [hindex type htype, h.index htype]

/-- Without a name to add an index is filled. -/
theorem Expects.filled (h : c.Expects s known m) (hnames : namesOf s type = []) :
    c.Filled s known type m where
  expects := h
  index htype := by
    rw [← h type htype, hnames]
    apply Std.ExtTreeSet.ext_mem
    simp

/-- Adding the names of a snapshot to an index fills it, and changes no other index. -/
theorem Expects.filled_sadd (htype : ValidType type) (h : c.Expects s known m) :
    c.Filled s known type (m.answer (.sadd (c.indexKey type) (namesOf s type))).2 where
  expects type' htype' := by
    rw [← h type' htype']
    apply Std.ExtTreeSet.ext_mem
    intro x
    simp only [Std.ExtTreeSet.mem_union_iff, Memory.mem_setOf_sadd, c.indexKey_inj htype' htype,
      Std.ExtTreeSet.mem_ofList, List.contains_iff_mem, or_assoc]
    refine or_congr_right ⟨?_, .inr⟩
    rintro (⟨rfl, hx⟩ | hx)
    · exact hx
    · exact hx
  index _ := by
    rw [← h type htype]
    apply Std.ExtTreeSet.ext_mem
    simp [Memory.mem_setOf_sadd]

/-- A request leaves every index alone. -/
def Aside (r : Request) : Prop :=
  ∀ (m : Memory) type, ValidType type →
    (m.answer r).2.setOf (c.indexKey type) = m.setOf (c.indexKey type)

/-- New values are aside of the index: they touch no set. -/
theorem aside_mset (entries : List (String × String)) : c.Aside (.mset entries) := by
  intro m type _
  rw [Memory.answer_mset]
  rfl

/-- The members of a type are aside of its index. -/
theorem aside_sadd_members (htype : ValidType type) (ids : List String) :
    c.Aside (.sadd (c.membersKey type) ids) := by
  intro m type' htype'
  apply Std.ExtTreeSet.ext_mem
  simp [Memory.mem_setOf_sadd, c.indexKey_ne_membersKey htype' htype]

/-- The members of a type are aside of its index, also where they are taken out. -/
theorem aside_srem_members (htype : ValidType type) (ids : List String) :
    c.Aside (.srem (c.membersKey type) ids) := by
  intro m type' htype'
  apply Std.ExtTreeSet.ext_mem
  simp [Memory.mem_setOf_srem, c.indexKey_ne_membersKey htype' htype]

/-- The keys that an eviction deletes are aside of the index. -/
theorem aside_del (htype : ValidType type) (names ids : List String) :
    c.Aside (.del (ids.flatMap fun id =>
      names.map (c.relationshipKey type id) ++ [c.attributesKey type id])) := by
  intro m type' htype'
  rw [Memory.setOf_del]
  exact if_neg fun hkey => (c.isStringKey_of_mem_deleted htype hkey).ne_indexKey c htype' rfl

/-- Requests that leave the indexes alone are made between others that may rely on the index. -/
theorem Steady.aside {R : Memory → Prop} {r r' : Request} {f : r.Answer → Action Unit}
    {f' : r'.Answer → Action Unit} (a : r.Answer) (a' : r'.Answer) (hr : ∀ key, r ≠ .sadd key [])
    (hrelists : Relists r r') (haside : c.Aside r) (haside' : c.Aside r')
    (hf : ∀ m, c.Filled s known type m → f (m.answer r).1 = f a)
    (hf' : ∀ m, c.Filled s known type m → f' (m.answer r').1 = f' a')
    (hnext : Steady (c.Filled s known type) R (f a) (f' a')) :
    Steady (c.Filled s known type) R (KeyValueCache.call r >>= f) (KeyValueCache.call r' >>= f') :=
  .call a a' hr hrelists (fun m hm => hm.of_index c (haside m))
    (fun m hm => hm.of_index c (haside' m)) (fun _ hm => hm) hf hf' hnext

/-- A merge of a snapshot fills the index. -/
theorem steady_mergeAll {s s' : Snapshot} (h : s.Alike s') (known : String → Names)
    (type : String) :
    Steady (c.Expects s known) (c.Filled s known type) (c.mergeAll type (s.items.getD type []))
      (c.mergeAll type (s'.items.getD type [])) := by
  have hsame := h.getD_items type
  generalize hitems : s.items.getD type [] = items at hsame ⊢
  generalize s'.items.getD type [] = items' at hsame ⊢
  have hnames : namesOf s type = relationshipNames items := by rw [namesOf, hitems]
  by_cases htype : ValidType type
  case neg =>
    rw [mergeAll, mergeAll, validate, if_neg htype]
    exact .throw _
  -- names and ids are the same, and the entries are the same but for their texts
  have hnames' := relationshipNames_congr hsame
  have hids := writtenIds_congr hsame
  have hblank_iff : (items'.filter (!·.isBlank)).isEmpty = (items.filter (!·.isBlank)).isEmpty := by
    rw [← List.isEmpty_map (f := (·.id)), ← hids, List.isEmpty_map]
  rw [mergeAll, mergeAll, validate, if_pos htype]
  show Steady _ _ (if _ then _ else _) (if _ then _ else _)
  by_cases hempty : (items.filter (!·.isBlank)).isEmpty
  · rw [if_pos hempty, if_pos (hblank_iff.trans hempty)]
    have hblank : ∀ item ∈ items, item.isBlank = true := by
      simpa [List.filter_eq_nil_iff] using hempty
    exact .pure fun m hm => hm.filled c (hnames.trans (c.nothing_of_blank type hblank).1)
  have hempty' : ¬(items'.filter (!·.isBlank)).isEmpty = true := by rwa [hblank_iff]
  rw [if_neg hempty, if_neg hempty']
  -- the strings and the members are written in the same way whether or not there is a name
  have htail : Steady (c.Filled s known type) (c.Filled s known type)
      (do
        call (.mset (items.flatMap (c.entries type)))
        let _ ← call (.sadd (c.membersKey type) ((items.filter (!·.isBlank)).map (·.id))))
      (do
        call (.mset (items'.flatMap (c.entries type)))
        let _ ← call (.sadd (c.membersKey type) ((items'.filter (!·.isBlank)).map (·.id)))) := by
    refine .aside c () () (by simp) (c.relists_entries htype hsame) (c.aside_mset _)
      (c.aside_mset _) (fun _ _ => rfl) (fun _ _ => rfl) ?_
    refine .aside c (0 : Nat) (0 : Nat) (fun key h => ?_) (hids ▸ .same _)
      (c.aside_sadd_members htype _) (c.aside_sadd_members htype _) (fun _ _ => rfl)
      (fun _ _ => rfl) (.pure fun _ hm => hm)
    rw [Request.sadd.injEq, List.map_eq_nil_iff] at h
    exact hempty (List.isEmpty_iff.2 h.2)
  by_cases hno : (relationshipNames items).isEmpty
  · have hskip : (!(relationshipNames items).isEmpty) = true ↔ False := by simp [hno]
    have hskip' : (!(relationshipNames items').isEmpty) = true ↔ False := by rwa [← hnames']
    simp only [hskip, hskip', if_false]
    have hfilled : ∀ m, c.Expects s known m → c.Filled s known type m := fun m hm =>
      hm.filled c (hnames.trans (List.isEmpty_iff.1 hno))
    have hwhole := Steady.bind (.pure hfilled) (fun _ => Filled.expects) htail
    exact hwhole
  · have hadd : (!(relationshipNames items).isEmpty) = true ↔ True := by simp [hno]
    have hadd' : (!(relationshipNames items').isEmpty) = true ↔ True := by rwa [← hnames']
    simp only [hadd, hadd', if_true]
    have hleft : ∀ m, c.Expects s known m → c.Filled s known type
        (m.answer (.sadd (c.indexKey type) (relationshipNames items))).2 := fun m hm => by
      rw [← hnames]
      exact hm.filled_sadd c htype
    refine .call (0 : Nat) (0 : Nat) (fun key h => ?_) (hnames' ▸ .same _) hleft (hnames' ▸ hleft)
      (fun _ hm => hm.expects) (fun _ _ => rfl) (fun _ _ => rfl) htail
    rw [Request.sadd.injEq] at h
    exact hno (List.isEmpty_iff.2 h.2)

/-- An eviction that reads a filled index removes the same keys every time. -/
theorem steady_evictAll (s : Snapshot) (known : String → Names) (type : String)
    (ids : List String) :
    Steady (c.Filled s known type) (fun _ => True) (c.evictAll type ids) (c.evictAll type ids) := by
  by_cases htype : ValidType type
  case neg =>
    rw [evictAll, validate, if_neg htype]
    exact .throw _
  rw [evictAll, validate, if_pos htype]
  show Steady _ _ (if _ then _ else _) (if _ then _ else _)
  by_cases hempty : (distinct ids).isEmpty
  · rw [if_pos hempty]
    exact .pure fun _ _ => trivial
  rw [if_neg hempty]
  -- the index holds the names known, so the keys removed are the same on every such store
  have hread : ∀ m, c.Filled s known type m →
      (m.answer (.smembers (c.indexKey type))).1 = (known type).toList := fun m hm => by
    rw [← hm.index htype]
    rfl
  refine .aside c (known type).toList (known type).toList (by simp) (.same _) (fun _ _ _ => rfl)
    (fun _ _ _ => rfl) (fun m hm => by rw [hread m hm]) (fun m hm => by rw [hread m hm]) ?_
  refine .aside c (0 : Nat) (0 : Nat) (by simp) (.same _) (c.aside_del htype _ _)
    (c.aside_del htype _ _) (fun _ _ => rfl) (fun _ _ => rfl) ?_
  exact .aside c (0 : Nat) (0 : Nat) (by simp) (.same _) (c.aside_srem_members htype _)
    (c.aside_srem_members htype _) (fun _ _ => rfl) (fun _ _ => rfl) (.pure fun _ _ => trivial)

/-- The merge of a type is steady on the stores that hold the index expected, and leaves it
filled. -/
theorem steady_mergeType (agent : String) {s s' : Snapshot} (h : s.Alike s')
    (known : String → Names) (type : String) :
    Steady (c.Expects s known) (c.Filled s known type) (mergeType c.writer agent s type)
      (mergeType c.writer agent s' type) := by
  have hmerge := c.steady_mergeAll h known type
  rw [mergeType, mergeType]
  rw [Std.ExtTreeMap.getD_eq_getD_getElem?, Std.ExtTreeMap.getD_eq_getD_getElem?] at hmerge
  have hboth := h.items type
  cases hitems : s.items[type]? with
  | none =>
    rw [hitems, Option.map_none, eq_comm, Option.map_eq_none_iff] at hboth
    rw [hboth]
    -- without items the type needs no names, and its index counts as filled
    have hnames : namesOf s type = [] := by
      rw [namesOf, Std.ExtTreeMap.getD_eq_getD_getElem?, hitems]
      rfl
    exact .pure fun m hm => hm.filled c hnames
  | some items =>
    rw [hitems, Option.map_some, eq_comm, Option.map_eq_some_iff] at hboth
    obtain ⟨items', hitems', -⟩ := hboth
    rw [hitems, hitems'] at hmerge
    rw [hitems']
    exact hmerge.within _

/-- The eviction of a type is steady where the index is filled, as it deletes the same keys then. -/
theorem steady_evictType (agent : String) {s s' : Snapshot} (h : s.Alike s')
    (known : String → Names) (type : String) :
    Steady (c.Filled s known type) (fun _ => True) (evictType c.writer agent s type)
      (evictType c.writer agent s' type) := by
  rw [evictType, evictType, ← h.evictions]
  cases s.evictions[type]? with
  | none => exact .pure fun _ _ => trivial
  | some ids => exact (c.steady_evictAll s known type ids).within _

/-- The writes of a cycle are steady, type by type, as each type has an index of its own. -/
theorem steady_writeTypes (agent : String) {s s' : Snapshot} (h : s.Alike s')
    (known : String → Names) (types : List String) :
    Steady (c.Expects s known) (fun _ => True) (writeTypes c.writer agent s types)
      (writeTypes c.writer agent s' types) := by
  induction types with
  | nil => exact .pure fun _ _ => trivial
  | cons type rest ih =>
    have htype : Steady (c.Expects s known) (fun _ => True) (writeType c.writer agent s type)
        (writeType c.writer agent s' type) := by
      rw [writeType_eq, writeType_eq]
      exact .bind (c.steady_mergeType agent h known type) (fun _ => Filled.expects)
        (c.steady_evictType agent h known type)
    exact .bind htype.kept (fun _ hm => hm) ih

/-- Collections of loads that come to the same are steady, whatever the store holds. -/
theorem exists_steady_collect (agent : String) {load load' : Load} (h : load.Alike load')
    (m : Memory) : ∃ P : Memory → Prop, P m ∧
      Steady P (fun _ => True) (collect c.writer agent load) (collect c.writer agent load') := by
  -- the names that come to be known are those that are there before and those of the snapshot
  let known (s : Snapshot) (type : String) : Names :=
    m.setOf (c.indexKey type) ∪ .ofList (namesOf s type)
  cases h with
  | refl load =>
    match load with
    | .unsupported | .loaded (.error _) => exact ⟨fun _ => True, trivial, .throw _⟩
    | .loaded (.ok s) =>
      exact ⟨c.Expects s (known s), fun _ _ => rfl, c.steady_writeTypes agent (.refl s) _ s.types⟩
  | @snapshots s s' h =>
    refine ⟨c.Expects s (known s), fun _ _ => rfl, ?_⟩
    have hsteady := c.steady_writeTypes agent h (known s) s.types
    rw [collect, collect, write, write, ← h.types_eq]
    exact hsteady

end KeyValueCache

/-! ## Both -/

/-- Whatever an agent has loaded and whatever a cache holds, collecting a second time comes to the
same result as the first time and leaves the cache exactly as the first time has left it.  This is
so for a direct cache, and for a cache on a store in memory, with all its strings and sets.

An agent may also load the same anew, in maps that list their contents in other orders.  A direct
cache cannot tell.  In a store the strings then come to stand for the same as before, in the orders
of the last collection: what it leaves is what it leaves by itself. -/
theorem collect_twice (agent : String) {load load' : Load} (h : load.Alike load') :
    (∀ d : DirectCache,
      let once := (collect DirectCache.writer agent load).run d
      (collect DirectCache.writer agent load).run once.2 = once ∧
        (collect DirectCache.writer agent load').run d = once) ∧
    ∀ (c : KeyValueCache) (m : Store.Memory),
      let once := (collect c.writer agent load).run.run Store.Memory.serve m
      let other := (collect c.writer agent load').run.run Store.Memory.serve m
      (collect c.writer agent load).run.run Store.Memory.serve once.2 = once ∧
        (collect c.writer agent load').run.run Store.Memory.serve once.2 = other ∧
        once.1 = other.1 ∧ Relisted once.2 other.2 := by
  refine ⟨fun d => ⟨DirectCache.run_collect_again agent load d, ?_⟩, fun c m => ⟨?_, ?_⟩⟩
  · exact (DirectCache.run_collect_congr agent h d).symm
  · obtain ⟨P, hm, hsteady⟩ := c.exists_steady_collect agent (.refl load) m
    exact hsteady.again hm
  · obtain ⟨P, hm, hsteady⟩ := c.exists_steady_collect agent h m
    exact ⟨hsteady.again hm, hsteady.relisted hm⟩

/-- A host with two attributes. -/
def racedHost : Entity :=
  (({ id := "a" } : Entity).withAttribute "ready" (.bool true)).withAttribute "zone" .null

/-- The host in a map that lists the second attribute first. -/
def racedHostBack : Item where
  toEntity := racedHost
  fields := [("zone", .null), ("ready", .bool true)]
  links := []
  fields_perm := .swap ("ready", Json.bool true) ("zone", Json.null) []
  links_perm := .refl _

/-- A load of one host. -/
def hostLoad (item : Item) : Load := .loaded (.ok (({} : Snapshot).withItems "host" [item]))

/-- The host is collected, and collected again from a map that lists it the other way round. -/
theorem collect_twice_racedHost :
    (hostLoad racedHost.listed).Alike (hostLoad racedHostBack) ∧
      let run (item : Item) (m : Store.Memory) :=
        (collect (KeyValueCache.mk "fleetcache").writer "agent" (hostLoad item)).run.run
          Store.Memory.serve m
      run racedHost.listed (run racedHost.listed {}).2 = run racedHost.listed {} ∧
        run racedHostBack (run racedHost.listed {}).2 = run racedHostBack {} ∧
        Relisted (run racedHost.listed {}).2 (run racedHostBack {}).2 ∧
        (run racedHost.listed {}).2.strings["fleetcache:host:attributes:a"]? ≠
          (run racedHostBack {}).2.strings["fleetcache:host:attributes:a"]? := by
  have halike : (hostLoad racedHost.listed).Alike (hostLoad racedHostBack) := by
    refine .snapshots ⟨fun type => ?_, rfl⟩
    simp only [Snapshot.withItems, Std.ExtTreeMap.getElem?_insert]
    split
    case isTrue => simp [racedHostBack]
    case isFalse => rfl
  obtain ⟨-, hstore⟩ := collect_twice "agent" halike
  obtain ⟨htwice, hback, -, hrelisted⟩ := hstore (KeyValueCache.mk "fleetcache") {}
  exact ⟨halike, htwice, hback, hrelisted, by decide +kernel⟩

end EntityCache
