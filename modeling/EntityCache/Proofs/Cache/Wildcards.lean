import EntityCache.Proofs.Cache.Nested
import EntityCache.Proofs.Glob.Expression

/-!
# Runs of any characters

A `*` in a glob should stand for any run of characters.  It stands for any run without line feeds:
what is put in its place is taken exactly if it has none (`accepts_around_star_iff`), for a glob
takes as many line feeds as its pattern has, wherever they stand (`count_lineFeed_of_splits`).  So
the glob `*` lists the ids of a type that have no line feed, in every cache and every state.
-/

namespace EntityCache

namespace Glob

variable {p q x y : String} {g gp gq : Glob} {s s' : List Char} {token : Token}
  {tokens tokens' : List Token}

/-- Only a token that stands for it matches a line feed. -/
theorem Token.count_lineFeed {piece : List Char} (h : token.Fits piece) :
    piece.count '\n' = [token].count (exactly '\n') := by
  cases token with
  | run => simpa using List.count_eq_zero.2 h
  | one =>
    obtain ⟨c, hc, rfl⟩ := h
    simp [hc]
  | exactly c =>
    obtain rfl : piece = [c] := h
    simp [List.count_singleton]

/-- Line feeds are taken one by one by the tokens that stand for them. -/
theorem count_lineFeed_of_splits (h : Splits tokens s) :
    s.count '\n' = tokens.count (.exactly '\n') := by
  induction tokens generalizing s with
  | nil =>
    obtain rfl := splits_nil.1 h
    rfl
  | cons token tokens ih =>
    obtain ⟨piece, rest, hpiece, hrest, rfl⟩ := splits_cons.1 h
    rw [List.count_append, token.count_lineFeed hpiece, ih hrest, ← List.count_append,
      List.singleton_append]

/-- Tokens one after another take what they take, one after another. -/
theorem Splits.append (h : Splits tokens s) (h' : Splits tokens' s') :
    Splits (tokens ++ tokens') (s ++ s') := by
  obtain ⟨pieces, rfl, hpieces⟩ := h
  obtain ⟨pieces', rfl, hpieces'⟩ := h'
  exact ⟨pieces ++ pieces', List.flatten_append, List.rel_append hpieces hpieces'⟩

/-- What a compiled pattern accepts splits into a piece for each of its characters. -/
theorem splits_of_accepts (h : compile p = .ok g) (hx : g.accepts x) :
    Splits (p.toList.map Token.ofChar) x.toList := by
  obtain rfl := pattern_of_compile h
  -- the tokens of a compiled pattern are those of its text
  rw [← g.tokens_eq]
  exact (accepts_iff_splits g x).1 hx

/-- What stands in the place of a star is taken exactly if it has no line feed. -/
theorem accepts_around_star_iff (hp : compile p = .ok gp) (hq : compile q = .ok gq)
    (hg : compile (p ++ "*" ++ q) = .ok g) (hx : gp.accepts x) (hy : gq.accepts y) (s : String) :
    g.accepts (x ++ s ++ y) ↔ '\n' ∉ s.toList := by
  have htokens : g.tokens = p.toList.map Token.ofChar ++ .run :: q.toList.map Token.ofChar := by
    rw [g.tokens_eq, pattern_of_compile hg, String.toList_append, String.toList_append,
      List.append_assoc, List.map_append]
    rfl
  replace hx := splits_of_accepts hp hx
  replace hy := splits_of_accepts hq hy
  rw [accepts_iff_splits, htokens, String.toList_append, String.toList_append]
  constructor
  · intro h
    -- the line feeds of `x` and `y` are all that the tokens beside the run can take
    have hcount := count_lineFeed_of_splits h
    rw [List.count_append, List.count_append, List.count_append, List.count_cons,
      count_lineFeed_of_splits hx, count_lineFeed_of_splits hy] at hcount
    simp only [beq_iff_eq, reduceCtorEq, ↓reduceIte] at hcount
    exact List.count_eq_zero.1 (by omega)
  · intro hs
    rw [List.append_assoc]
    exact hx.append (splits_cons.2 ⟨_, _, hs, hy, rfl⟩)

/-- The glob of a star. -/
def star : Glob := ⟨"*", [.run], rfl, by decide +kernel⟩

/-- The pattern is short enough to be compiled. -/
theorem compile_star : compile "*" = .ok star := dif_pos star.size_le

/-- A star alone accepts what has no line feed. -/
theorem accepts_star_iff (id : String) : star.accepts id ↔ '\n' ∉ id.toList := by
  rw [accepts_iff_splits]
  show Splits [.run] id.toList ↔ _
  constructor
  · intro h
    exact List.count_eq_zero.1 (count_lineFeed_of_splits h)
  · intro h
    exact splits_cons.2 ⟨_, [], h, splits_nil.2 rfl, (List.append_nil _).symm⟩

end Glob

namespace CacheHandle

/-- The ids that the glob `*` takes are those without line feeds. -/
theorem filterIdentifiers_star (cache : CacheHandle) (type : String) :
    cache.reader.filterIdentifiers type "*" =
      List.filter (fun id => '\n' ∉ id.toList) <$> cache.reader.getIdentifiers type := by
  have hfilter : Glob.star.filter = List.filter (fun id => '\n' ∉ id.toList) := by
    funext ids
    refine List.filter_congr fun id _ => ?_
    rw [Bool.eq_iff_iff, Glob.accepts_star_iff, decide_eq_true_iff]
  rw [filters_reader cache type "*" Glob.star Glob.compile_star, hfilter]

/-- Around what two globs take, a star takes exactly the runs without line feeds.  In every state of
every cache the glob `*` lists the ids without line feeds, and so all ids exactly if none has
one. -/
theorem star_iff_no_lineFeed (s : String) (cache : CacheHandle) (type : String) :
    (∀ (p q x y : String) (gp gq g : Glob), Glob.compile p = .ok gp → Glob.compile q = .ok gq →
      Glob.compile (p ++ "*" ++ q) = .ok g → gp.accepts x → gq.accepts y →
      (g.accepts (x ++ s ++ y) ↔ '\n' ∉ s.toList)) ∧
    ∀ (d d' : Deployment) (ids : List String),
      (cache.reader.getIdentifiers type).run d = (.ok ids, d') →
      ∃ taken, (cache.reader.filterIdentifiers type "*").run d = (.ok taken, d') ∧
        taken = ids.filter (fun id => '\n' ∉ id.toList) ∧
        (taken = ids ↔ ∀ id ∈ ids, '\n' ∉ id.toList) := by
  refine ⟨fun p q x y gp gq g hp hq hg hx hy => Glob.accepts_around_star_iff hp hq hg hx hy s, ?_⟩
  intro d d' ids hids
  refine ⟨_, ?_, rfl, ?_⟩
  · rw [filterIdentifiers_star, ExceptT.run_map]
    exact congrArg (fun result => (result.1.map (List.filter fun id => '\n' ∉ id.toList), result.2))
      hids
  · rw [List.filter_eq_self]
    simp only [decide_eq_true_eq]

/-- An entity whose id is a line feed. -/
def lineFeedEntity : Entity := ({ id := "\n" } : Entity).withAttribute "x" (.number (.integer 1))

/-- A direct cache that has this entity. -/
def withLineFeed : Deployment := mergedInto "cache" lineFeedEntity {}

/-- A single merge leads to the deployment. -/
theorem reached_withLineFeed : withLineFeed.Reached :=
  @Deployment.Reached.write {} (.start rfl fun store o ho => by simp at ho) (direct "cache") _ rfl _

/-- The deployment lists its one id, a line feed. -/
theorem run_getIdentifiers_withLineFeed :
    (((direct "cache").reader.getIdentifiers "type").run withLineFeed) =
      (.ok ["\n"], (((direct "cache").reader.getIdentifiers "type").run withLineFeed).2) :=
  Prod.ext (by decide +kernel) rfl

/-- Nothing is put in the place of the star between `a` and `b`, and the cache has one id, which is
left out. -/
theorem star_iff_no_lineFeed_withLineFeed :
    (∃ ga gb g, Glob.compile "a" = .ok ga ∧ Glob.compile "b" = .ok gb ∧
      Glob.compile ("a" ++ "*" ++ "b") = .ok g ∧ ga.accepts "a" ∧ gb.accepts "b" ∧
      g.accepts ("a" ++ "" ++ "b") ∧ ¬g.accepts ("a" ++ "\n" ++ "b")) ∧
    ∃ d', ((direct "cache").reader.getIdentifiers "type").run withLineFeed = (.ok ["\n"], d') ∧
      ((direct "cache").reader.filterIdentifiers "type" "*").run withLineFeed = (.ok [], d') := by
  constructor
  · have hcompile (pattern : String)
        (h : Glob.size (pattern.toList.map Glob.Token.ofChar) ≤ Glob.sizeLimit) :
        Glob.compile pattern = .ok ⟨pattern, _, rfl, h⟩ := dif_pos h
    have ha := hcompile "a" (by decide +kernel)
    have hb := hcompile "b" (by decide +kernel)
    have hab := hcompile ("a" ++ "*" ++ "b") (by decide +kernel)
    -- the pattern between `a` and `b` takes what has no line feed, hence the empty text but not the
    -- feed
    have hiff (s : String) := (star_iff_no_lineFeed s (direct "cache") "type").1 "a" "b" "a" "b"
      _ _ _ ha hb hab (by decide +kernel) (by decide +kernel)
    exact ⟨_, _, _, ha, hb, hab, by decide +kernel, by decide +kernel, (hiff "").2 (by decide),
      mt (hiff "\n").1 (by decide)⟩
  · obtain ⟨_, hrun, rfl, -⟩ := (star_iff_no_lineFeed "" (direct "cache") "type").2 _ _ _
      run_getIdentifiers_withLineFeed
    exact ⟨_, run_getIdentifiers_withLineFeed, hrun⟩

/-- There are runs of characters that a star does not take, and ids that it does not list. -/
theorem not_always_any_run :
    (¬∀ (p q x s y : String) (gp gq g : Glob), Glob.compile p = .ok gp → Glob.compile q = .ok gq →
      Glob.compile (p ++ "*" ++ q) = .ok g → gp.accepts x → gq.accepts y →
      g.accepts (x ++ s ++ y)) ∧
    ¬∀ (d : Deployment) (cache : CacheHandle) (type : String) (ids : List String) (d' : Deployment),
      d.Reached → (cache.reader.getIdentifiers type).run d = (.ok ids, d') →
      (cache.reader.filterIdentifiers type "*").run d = (.ok ids, d') := by
  constructor
  -- a star alone would have to take a line feed
  · intro h
    have hempty : Glob.compile "" = .ok ⟨"", [], rfl, by decide +kernel⟩ := dif_pos (by decide +kernel)
    have htaken := h "" "" "" "\n" "" _ _ _ hempty hempty Glob.compile_star (by decide +kernel)
      (by decide +kernel)
    revert htaken
    decide +kernel
  · intro h
    have hlisted := h _ _ _ _ _ reached_withLineFeed run_getIdentifiers_withLineFeed
    replace hlisted := congrArg Prod.fst hlisted
    revert hlisted
    decide +kernel

end CacheHandle

end EntityCache
