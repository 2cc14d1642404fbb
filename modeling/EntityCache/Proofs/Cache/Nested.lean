import EntityCache.Proofs.Cache.Order

/-!
# Views over views

A view may have other views among its sources.  It is then the view over the sources of all of them
in their order: merging what has been merged already is merging everything at once
(`mergeSources_nested`), and so it is with leaving out repetitions (`distinct_nested`).  This holds
of whatever the sources answer, also if one of them fails, so the two views are the same reader.

What a source answers about a type is its `Contents` of the type.  A source without contents may be
left out, and where the sources filter their ids by a glob the view does so too.
-/

namespace EntityCache

namespace Entity

/-! ## A part that is made of parts -/

variable {before parts after : List Entity} {e x : Entity} {id : String}

/-- A part may be replaced by the parts that it is made of. -/
theorem Unites.expand (h : Unites (before ++ e :: after) x) (he : Unites parts e) :
    Unites (before ++ parts ++ after) x where
  attributes k := by
    rw [h.attributes, List.filterMap_append, List.filterMap_append, List.filterMap_append,
      List.getLast?_append, List.getLast?_append, List.getLast?_append, ← he.attributes,
      List.filterMap_cons]
    cases hk : e.attributes[k]? with
    | none => simp
    | some value => simp [List.getLast?_cons]
  named name := by
    simp only [h.named, List.mem_append, List.mem_cons, or_and_right, exists_or, exists_eq_left,
      he.named, or_assoc]
  related name id := by
    simp only [h.related, List.mem_append, List.mem_cons, or_and_right, exists_or, exists_eq_left,
      he.related, or_assoc]

/-- Parts of one id may be put together in groups. -/
theorem unite_nested (h : ∀ part ∈ before ++ parts ++ after, part.id = id) :
    unite (before ++ (unite parts).toList ++ after) = unite (before ++ parts ++ after) := by
  cases hunite : unite parts with
  | none =>
    rw [unite_eq_none_iff.1 hunite]
    rfl
  | some e =>
    rw [Option.toList_some, List.append_assoc, List.singleton_append]
    have hne : parts ≠ [] := by
      rintro rfl
      cases hunite
    obtain ⟨heid, he⟩ := unites_unite
      (fun part hpart => h part (by simp [hpart])) hunite
    -- what the parts in the middle unite to has their id, so it may stand for them
    have hgrouped : ∀ part ∈ before ++ e :: after, part.id = id := by
      simp only [List.mem_append, List.mem_cons] at h ⊢
      rintro part (hpart | rfl | hpart)
      · exact h part (.inl (.inl hpart))
      · exact heid
      · exact h part (.inr hpart)
    obtain ⟨x, hx⟩ := Option.ne_none_iff_exists'.1
      (mt unite_eq_none_iff.1 (show before ++ e :: after ≠ [] by simp))
    obtain ⟨y, hy⟩ := Option.ne_none_iff_exists'.1
      (mt unite_eq_none_iff.1 (show before ++ parts ++ after ≠ [] by simp [hne]))
    obtain ⟨hxid, hxunites⟩ := unites_unite hgrouped hx
    obtain ⟨hyid, hyunites⟩ := unites_unite h hy
    rw [hx, hy, (hxunites.expand he).unique (hxid.trans hyid.symm) hyunites]

end Entity

namespace Reader

/-! ## Merging what has been merged -/

/-- Of an id there is in what is merged what its items make, and nothing else. -/
theorem filter_mergeSources (perSource : List (List Entity)) (id : String) :
    (mergeSources perSource).filter (·.id = id) =
      (Entity.unite (perSource.flatten.filter (·.id = id))).toList := by
  have hitems : ∀ item ∈ perSource.flatten.filter (·.id = id), item.id = id := by simp
  have hmem (e : Entity) : e ∈ (mergeSources perSource).filter (·.id = id) ↔
      Entity.unite (perSource.flatten.filter (·.id = id)) = some e := by
    rw [List.mem_filter, mem_mergeSources, decide_eq_true_eq]
    constructor
    · rintro ⟨hunite, rfl⟩
      exact hunite
    · intro hunite
      obtain ⟨rfl, -⟩ := Entity.unites_unite hitems hunite
      exact ⟨hunite, rfl⟩
  cases hunite : Entity.unite (perSource.flatten.filter (·.id = id)) with
  | none =>
    refine List.eq_nil_iff_forall_not_mem.2 fun e he => ?_
    rw [hmem, hunite] at he
    cases he
  | some e =>
    -- a merged list has each id once, so filtering leaves one entity at most
    have hnodup : ((mergeSources perSource).filter (·.id = id)).Nodup :=
      (List.Nodup.of_map _ (nodup_map_id_mergeSources perSource)).filter _
    refine List.perm_singleton.1 ((List.perm_ext_iff_of_nodup hnodup (List.nodup_singleton e)).2 ?_)
    intro other
    rw [hmem, hunite, List.mem_singleton, Option.some_inj, eq_comm]

/-- What has been merged merges with the rest to what everything merges to. -/
theorem mergeSources_nested (before inner after : List (List Entity)) :
    mergeSources (before ++ mergeSources inner :: after) =
      mergeSources (before ++ inner ++ after) := by
  -- the ids come in the order in which they are first seen, also across nested lists
  have hids : distinct ((before ++ mergeSources inner :: after).flatten.map (·.id)) =
      distinct ((before ++ inner ++ after).flatten.map (·.id)) := by
    simp only [List.flatten_append, List.flatten_cons, List.map_append, map_id_mergeSources]
    rw [← List.append_assoc, distinct_nested]
  have hunite (id : String) :
      Entity.unite ((before ++ mergeSources inner :: after).flatten.filter (·.id = id)) =
        Entity.unite ((before ++ inner ++ after).flatten.filter (·.id = id)) := by
    simp only [List.flatten_append, List.flatten_cons, List.filter_append, filter_mergeSources]
    rw [← List.append_assoc]
    have hparts : ∀ part ∈ before.flatten.filter (·.id = id) ++ inner.flatten.filter (·.id = id) ++
        after.flatten.filter (·.id = id), part.id = id := by
      intro part hpart
      rw [← List.filter_append, ← List.filter_append] at hpart
      exact of_decide_eq_true (List.mem_filter.1 hpart).2
    exact Entity.unite_nested hparts
  simp only [mergeSources] at hids ⊢
  rw [hids]
  refine List.filterMap_congr fun id _ => ?_
  rw [getElem?_foldl_gather, getElem?_foldl_gather]
  exact hunite id

/-- Ids that have been united unite with the rest to what all unite to. -/
theorem distinct_flatten_nested (before inner after : List (List String)) :
    distinct (before ++ distinct inner.flatten :: after).flatten =
      distinct (before ++ inner ++ after).flatten := by
  simp only [List.flatten_append, List.flatten_cons]
  rw [← List.append_assoc, distinct_nested]

/-! ## Asking sources in groups -/

section Ask

variable {m : Type → Type} [Monad m] [LawfulMonad m] {α : Type}
  {ask ask' : Reader m → ExceptT DomainError m α}

/-- Sources in two lists are asked one list after the other. -/
theorem askAll_append (xs ys : List (Reader m)) :
    askAll ask (xs ++ ys) = do
      let before ← askAll ask xs
      let after ← askAll ask ys
      return before ++ after := by
  induction xs with
  | nil => simp [askAll]
  | cons x xs ih => simp [askAll, ih]

/-- A source that merges the answers of others may be replaced by these. -/
theorem askAll_nested (merge : List α → α) (hmerge : ∀ before inner after : List α,
      merge (before ++ merge inner :: after) = merge (before ++ inner ++ after))
    {source : Reader m} {ys : List (Reader m)} (hsource : ask source = merge <$> askAll ask ys)
    (xs zs : List (Reader m)) :
    merge <$> askAll ask (xs ++ source :: zs) = merge <$> askAll ask (xs ++ ys ++ zs) := by
  rw [askAll_append, askAll_append, askAll_append]
  simp [askAll, hsource, hmerge]

/-- What is made of each answer is made of all of them. -/
theorem askAll_map {β : Type} {ask : Reader m → ExceptT DomainError m β} {f : β → α}
    {sources : List (Reader m)} (h : ∀ source ∈ sources, ask' source = f <$> ask source) :
    askAll ask' sources = List.map f <$> askAll ask sources := by
  induction sources with
  | nil => simp [askAll]
  | cons source sources ih =>
    obtain ⟨hsource, hsources⟩ := List.forall_mem_cons.1 h
    simp [askAll, hsource, ih hsources]

attribute [ext] Reader

/-- A view among the sources of a view may be replaced by its own sources. -/
theorem composite_nested (xs ys zs : List (Reader m)) :
    composite (xs ++ composite ys :: zs) = composite (xs ++ ys ++ zs) := by
  -- the four reads ask the same sources in the same order and join what they answer
  have hgetAllByIds (type : String) (ids : List String) :
      (composite (xs ++ composite ys :: zs)).getAllByIds type ids =
        (composite (xs ++ ys ++ zs)).getAllByIds type ids := by
    simp only [composite]
    split
    case isTrue => rfl
    case isFalse hids =>
      exact askAll_nested mergeSources mergeSources_nested (by simp [hids]) xs zs
  have hgetAll (type : String) : (composite (xs ++ composite ys :: zs)).getAll type =
      (composite (xs ++ ys ++ zs)).getAll type :=
    askAll_nested mergeSources mergeSources_nested rfl xs zs
  have hgetIdentifiers (type : String) :
      (composite (xs ++ composite ys :: zs)).getIdentifiers type =
        (composite (xs ++ ys ++ zs)).getIdentifiers type :=
    askAll_nested (distinct ·.flatten) distinct_flatten_nested rfl xs zs
  have hfilterIdentifiers (type glob : String) :
      (composite (xs ++ composite ys :: zs)).filterIdentifiers type glob =
        (composite (xs ++ ys ++ zs)).filterIdentifiers type glob :=
    askAll_nested (distinct ·.flatten) distinct_flatten_nested rfl xs zs
  exact Reader.ext (funext fun type => funext (hgetAllByIds type)) (funext hgetAll)
    (funext hgetIdentifiers) (funext fun type => funext (hfilterIdentifiers type))

end Ask

/-! ## What a source answers about a type -/

/-- What a reader answers about a type: entities by their ids, all entities, all ids, and the ids
that a glob takes. -/
structure Contents where
  byIds : List String → List Entity
  all : List Entity
  ids : List String
  matching : String → List String

namespace Contents

/-- Nothing of a type. -/
def absent : Contents where
  byIds _ := []
  all := []
  ids := []
  matching _ := []

/-- What a view answers whose sources answer this. -/
def merged (sources : List Contents) : Contents where
  byIds ids := if ids.isEmpty then [] else mergeSources (sources.map (·.byIds ids))
  all := mergeSources (sources.map (·.all))
  ids := distinct (sources.map (·.ids)).flatten
  matching glob := distinct (sources.map (·.matching glob)).flatten

/-- A source without the type may be left out. -/
theorem merged_absent (before after : List Contents) :
    merged (before ++ absent :: after) = merged (before ++ after) := by
  simp [merged, absent, mergeSources]

end Contents

section Tells

variable {σ : Type} {S : Set σ} {type : String} {sources : List (Reader (StateM σ))}
  {contents : List Contents}

/-- The operations answer with these contents of the type, globs that compile included. -/
structure Tells (S : Set σ) (type : String) (c : Contents) (r : Reader (StateM σ)) : Prop where
  getAllByIds : ∀ ids, Answers S (r.getAllByIds type ids) (· = c.byIds ids)
  getAll : Answers S (r.getAll type) (· = c.all)
  getIdentifiers : Answers S (r.getIdentifiers type) (· = c.ids)
  filterIdentifiers : ∀ glob g, Glob.compile glob = .ok g →
    Answers S (r.filterIdentifiers type glob) (· = c.matching glob)

/-- `get` answers the entity last listed for the id. -/
theorem Tells.get {c : Contents} {r : Reader (StateM σ)} (h : Tells S type c r) (id : String) :
    Answers S (r.get type id) (· = (c.byIds [id]).getLast?) :=
  (h.getAllByIds [id]).bind fun _ hfound => answers_pure (congrArg List.getLast? hfound)

/-- Sources that answer one by one answer together. -/
theorem answers_askAll_eq {α : Type} {ask : Reader (StateM σ) → ExceptT DomainError (StateM σ) α}
    {answer : Contents → α}
    (h : List.Forall₂ (fun c source => Answers S (ask source) (· = answer c)) contents sources) :
    Answers S (askAll ask sources) (· = contents.map answer) := by
  refine (answers_askAll (R := fun c a => a = answer c) h).mono fun answers hanswers => ?_
  clear h
  induction hanswers with
  | nil => rfl
  | cons hfirst _ ih => rw [List.map_cons, ← hfirst, ih]

/-- A view answers with what its sources answer, merged. -/
theorem tells_composite (h : List.Forall₂ (Tells S type) contents sources) :
    Tells S type (.merged contents) (composite sources) where
  getAllByIds ids := by
    simp only [composite, Contents.merged]
    split
    case isTrue => exact answers_pure rfl
    case isFalse =>
      exact (answers_askAll_eq (h.imp fun _ _ htells => htells.getAllByIds ids)).bind
        fun _ hper => answers_pure (congrArg mergeSources hper)
  getAll := (answers_askAll_eq (h.imp fun _ _ htells => htells.getAll)).bind
    fun _ hper => answers_pure (congrArg mergeSources hper)
  getIdentifiers := (answers_askAll_eq (h.imp fun _ _ htells => htells.getIdentifiers)).bind
    fun _ hper => answers_pure (congrArg (distinct ·.flatten) hper)
  filterIdentifiers glob g hg :=
    (answers_askAll_eq (h.imp fun _ _ htells => htells.filterIdentifiers glob g hg)).bind
      fun _ hper => answers_pure (congrArg (distinct ·.flatten) hper)

end Tells

/-! ## Filtering by a glob -/

section Filters

variable {m : Type → Type} [Monad m] [LawfulMonad m]

/-- Filtering by a glob that compiles is filtering all ids of the type. -/
def Filters (r : Reader m) : Prop :=
  ∀ type glob g, Glob.compile glob = .ok g →
    r.filterIdentifiers type glob = g.filter <$> r.getIdentifiers type

/-- A reader that filters what it lists meets the filter law. -/
theorem filters_filterBy {r : Reader m} (h : r.filterIdentifiers = filterBy r.getIdentifiers) :
    r.Filters := by
  intro type glob g hg
  rw [h, filterBy, hg, map_eq_pure_bind]
  exact pure_bind g _

/-- The ids that a view takes are those of all that its sources take. -/
theorem filters_composite {sources : List (Reader m)} (h : ∀ source ∈ sources, source.Filters) :
    (composite sources).Filters := by
  intro type glob g hg
  have hsources : askAll (·.filterIdentifiers type glob) sources =
      List.map g.filter <$> askAll (·.getIdentifiers type) sources :=
    askAll_map fun source hsource => h source hsource type glob g hg
  simp only [composite, hsources, bind_pure_comp, Functor.map_map]
  congr 1
  funext perSource
  show distinct (perSource.map (List.filter g.accepts)).flatten = _
  rw [← List.filter_flatten, distinct_filter]
  rfl

/-- Effects may be carried into another monad. -/
theorem Filters.lift {n : Type → Type} [Monad n] [LawfulMonad n] {f : {α : Type} → m α → n α}
    (hf : ∀ {α β : Type} (g : α → β) (x : m α), f (g <$> x) = g <$> f x) {r : Reader m}
    (h : r.Filters) : (r.lift f).Filters := by
  intro type glob g hg
  apply ExceptT.ext
  show f (r.filterIdentifiers type glob).run = _
  rw [h type glob g hg, ExceptT.run_map, hf, ExceptT.run_map]
  rfl

end Filters

end Reader

namespace CacheHandle

mutual

/-- Every cache filters by a glob as it lists all ids. -/
theorem filters_reader : (cache : CacheHandle) → cache.reader.Filters
  | keyValue store c => by
    refine Reader.Filters.lift (fun g x => ?_) (Reader.filters_filterBy rfl)
    funext d
    exact Program.run_bind _ _ _ _
  | direct name => Reader.Filters.lift (fun _ _ => rfl) (Reader.filters_filterBy rfl)
  | composite sources => by
    rw [reader]
    exact Reader.filters_composite (filters_readers sources)

/-- Every reader of a cache, nested composites included, filters what it lists. -/
theorem filters_readers : (caches : List CacheHandle) → ∀ r ∈ readers caches, r.Filters
  | [] => by simp [readers]
  | cache :: caches => by
    rw [readers]
    exact List.forall_mem_cons.2 ⟨filters_reader cache, filters_readers caches⟩

end

end CacheHandle

/-! ## Direct caches as sources -/

/-- What a direct cache answers about a type. -/
def DirectCache.contents (c : DirectCache) (type : String) : Reader.Contents where
  byIds := c.getAllByIds type
  all := c.getAll type
  ids := c.getIdentifiers type
  matching glob := (Glob.compile glob).toOption.elim [] (·.filter (c.getIdentifiers type))

/-- An empty cache has no contents, not even of types that it knows. -/
theorem DirectCache.contents_empty (type : String) : ({} : DirectCache).contents type = .absent := by
  have hentities : ({} : DirectCache).entities type = ∅ := Std.ExtTreeMap.getD_empty
  have hbyIds (ids : List String) : ({} : DirectCache).getAllByIds type ids = [] := by
    simp [getAllByIds, hentities]
  have hids : ({} : DirectCache).getIdentifiers type = [] := by
    simp [getIdentifiers, hentities]
  have hmatching (glob : String) :
      (Glob.compile glob).toOption.elim ([] : List String) (·.filter []) = [] := by
    cases (Glob.compile glob).toOption <;> rfl
  simp only [contents, funext hbyIds, hids, funext hmatching, Reader.Contents.absent]
  simp [getAll, hentities]

/-- The deployments whose direct caches hold this. -/
def Deployment.holding (caches : String → DirectCache) : Set Deployment :=
  { d | ∀ name, d.direct.getD name {} = caches name }

/-- A direct cache answers with what it holds while nothing is written to it. -/
theorem CacheHandle.tells_direct (caches : String → DirectCache) (name type : String) :
    Reader.Tells (Deployment.holding caches) type ((caches name).contents type)
      (direct name).reader := by
  -- each operation reads the cache and puts it back
  have hanswers {α : Type} (op : DirectCache → α) : Reader.Answers (Deployment.holding caches)
      (ExceptT.mk (Deployment.onDirect name fun c => (.ok (op c), c))) (· = op (caches name)) := by
    intro d hd
    refine ⟨_, _, fun name' => ?_, rfl, congrArg op (hd name)⟩
    rw [Std.ExtTreeMap.getD_insert]
    split
    case isTrue hname => rw [← compare_eq_iff_eq.1 hname, hd]
    case isFalse => exact hd name'
  have hgetIdentifiers := hanswers (·.getIdentifiers type)
  refine ⟨fun ids => hanswers (·.getAllByIds type ids), hanswers (·.getAll type),
    hgetIdentifiers, fun glob g hg => ?_⟩
  rw [filters_reader (direct name) type glob g hg, map_eq_pure_bind]
  refine hgetIdentifiers.bind fun ids hids => Reader.answers_pure ?_
  simp only [hids, DirectCache.contents, hg]
  rfl

namespace Reader

/-- A view over views is the view over all their sources: its operations do the same, results and
their order included.  A source that answers with nothing of a type may be left out as far as
this type is read.  And the ids that a glob takes from a view are those of all its ids that the
glob takes, as it is with the sources of the view, and with every cache of a deployment. -/
theorem composite_flattens {σ : Type} :
    (∀ xs ys zs : List (Reader (StateM σ)),
      composite (xs ++ composite ys :: zs) = composite (xs ++ ys ++ zs)) ∧
    (∀ (S : Set σ) (type : String) (source : Reader (StateM σ)) (xs zs : List (Reader (StateM σ)))
      (before after : List Contents), Tells S type .absent source →
      List.Forall₂ (Tells S type) before xs → List.Forall₂ (Tells S type) after zs →
      ∃ c, Tells S type c (composite (xs ++ source :: zs)) ∧ Tells S type c (composite (xs ++ zs)) ∧
        ∀ id, ∃ e, Answers S ((composite (xs ++ source :: zs)).get type id) (· = e) ∧
          Answers S ((composite (xs ++ zs)).get type id) (· = e)) ∧
    (∀ sources : List (Reader (StateM σ)), (∀ source ∈ sources, source.Filters) →
      (composite sources).Filters) ∧
    ∀ cache : CacheHandle, cache.reader.Filters := by
  refine ⟨composite_nested, ?_, fun sources => filters_composite, CacheHandle.filters_reader⟩
  intro S type source xs zs before after hsource hxs hzs
  have hwith := tells_composite (List.rel_append hxs (.cons hsource hzs))
  have hwithout := tells_composite (List.rel_append hxs hzs)
  -- a source without anything adds nothing to the contents
  rw [Contents.merged_absent] at hwith
  exact ⟨_, hwith, hwithout, fun id => ⟨_, hwith.get id, hwithout.get id⟩⟩

/-- Between two caches that have an entity `x` each there is one that is empty. -/
theorem composite_flattens_threeCaches :
    let source (name : String) := (CacheHandle.direct name).reader
    let S := Deployment.holding (twoCaches.direct.getD · {})
    composite [source "first", composite [source "third", source "second"]] =
        composite [source "first", source "third", source "second"] ∧
      (∃ c, Tells S "type" c (composite [source "first", source "third", source "second"]) ∧
        Tells S "type" c (composite [source "first", source "second"]) ∧ c.ids = ["x"]) ∧
      (composite [source "first", source "second"]).Filters ∧
      (Glob.compile "x*").toOption.isSome := by
  intro source S
  obtain ⟨hnested, habsent, hfilters, hcaches⟩ := @composite_flattens Deployment
  have hthird : Tells S "type" .absent (source "third") := by
    have hempty : twoCaches.direct.getD "third" {} = {} := by
      simp [twoCaches, Std.ExtTreeMap.getD_insert]
    have hholds := CacheHandle.tells_direct (twoCaches.direct.getD · {}) "third" "type"
    rwa [hempty, DirectCache.contents_empty] at hholds
  obtain ⟨c, hwith, hwithout, -⟩ := habsent S "type" _ [source "first"] [source "second"] _ _ hthird
    (.cons (CacheHandle.tells_direct _ "first" "type") .nil)
    (.cons (CacheHandle.tells_direct _ "second" "type") .nil)
  refine ⟨hnested [_] [_, _] [], ⟨c, hwith, hwithout, ?_⟩, hfilters _ ?_, by decide +kernel⟩
  · obtain ⟨_, _, -, hrun, rfl⟩ := hwithout.getIdentifiers twoCaches fun _ => rfl
    have hids : (((composite [source "first", source "second"]).getIdentifiers "type").run
        twoCaches).1 = .ok ["x"] := by decide +kernel
    exact Except.ok.inj ((congrArg Prod.fst hrun).symm.trans hids)
  · simp only [List.forall_mem_cons, List.not_mem_nil, false_imp_iff, implies_true, and_true]
    exact ⟨hcaches _, hcaches _⟩

end Reader

end EntityCache
