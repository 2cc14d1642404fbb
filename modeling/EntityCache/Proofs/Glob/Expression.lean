import EntityCache.Proofs.Glob.Language

/-!
# The expression of a glob

A pattern is written as a regular expression and the ids are searched with it: `*` becomes `.*`, `?`
becomes `.`, every other character is escaped where it means something in an expression, and an
anchor stands on either side.  `Glob.accepts` does not go this way, and here is why it may not: the
expression of a pattern is one of those that `Expression.read?` reads, with the tokens of the
pattern between its anchors (`read?_expression`), and a search with such an expression finds what
the tokens split, since the anchors make it take the whole text (`isMatch_iff_splits`).

`Expression.read?` knows as much of the syntax of expressions as is needed here and refuses all
else, so nothing that is written for a character of a pattern is taken for something else together
with what stands beside it.
-/

namespace EntityCache

namespace Glob

variable {pattern : String} {g : Glob} {c : Char} {s : List Char} {tokens : List Token}

/-! ## Patterns and expressions -/

/-- What a character of a pattern takes. -/
def Fits (p : Char) (piece : List Char) : Prop :=
  if p = '*' then '\n' ∉ piece
  else if p = '?' then ∃ c, c ≠ '\n' ∧ piece = [c]
  else piece = [p]

/-- The characters that mean something in an expression. -/
def isMeta (c : Char) : Bool := "\\.+*?()|[]\x7b\x7d^$#&-~".toList.contains c

/-- A character as it is written to stand for itself. -/
def escape (c : Char) : List Char := if isMeta c then ['\\', c] else [c]

/-- What is written for a character of a pattern. -/
def written : Char → List Char
  | '*' => ['.', '*']
  | '?' => ['.']
  | c => escape c

/-- The expression of a pattern. -/
def expression (pattern : String) : List Char := '^' :: pattern.toList.flatMap written ++ ['$']

/-- A character that is no wildcard stands for itself. -/
theorem Token.ofChar_of_ne (hstar : c ≠ '*') (hmark : c ≠ '?') : ofChar c = exactly c := by
  rw [ofChar]
  · exact hstar
  · exact hmark

/-- A character that is no wildcard is written with an escape where it needs one. -/
theorem written_of_ne (hstar : c ≠ '*') (hmark : c ≠ '?') : written c = escape c := by
  rw [written]
  · exact hstar
  · exact hmark

namespace Expression

/-- A part of an expression: the start of the text, its end, or something that is taken, where a
token stands for a dot with a star, a dot, or a character. -/
inductive Part where
  | start
  | stop
  | taking (token : Token)

/-- The parts of an expression that has only such parts. -/
def read? : List Char → Option (List Part)
  | [] => some []
  | '^' :: rest => (read? rest).map (.start :: ·)
  | '$' :: rest => (read? rest).map (.stop :: ·)
  | '.' :: '*' :: rest => (read? rest).map (.taking .run :: ·)
  | '.' :: rest => (read? rest).map (.taking .one :: ·)
  | '\\' :: c :: rest => if isMeta c then (read? rest).map (.taking (.exactly c) :: ·) else none
  | c :: rest => if isMeta c then none else (read? rest).map (.taking (.exactly c) :: ·)

/-- The parts match `here` where it stands between `before` and `after`. -/
inductive Matches : List Part → (before here after : List Char) → Prop
  | nil {before after : List Char} : Matches [] before [] after
  | start {parts : List Part} {here after : List Char} (h : Matches parts [] here after) :
    Matches (.start :: parts) [] here after
  | stop {parts : List Part} {before : List Char} (h : Matches parts before [] []) :
    Matches (.stop :: parts) before [] []
  | taking {token : Token} {parts : List Part} {before piece rest after : List Char}
    (hpiece : token.Fits piece) (h : Matches parts (before ++ piece) rest after) :
    Matches (.taking token :: parts) before (piece ++ rest) after

/-- A search finds a match somewhere in the text. -/
def IsMatch (parts : List Part) (text : List Char) : Prop :=
  ∃ before here after, text = before ++ here ++ after ∧ Matches parts before here after

/-- Tokens before the end of the text match what they split, and nothing comes after it. -/
theorem matches_taking_stop {before after : List Char} :
    Matches (tokens.map .taking ++ [.stop]) before s after ↔ Splits tokens s ∧ after = [] := by
  -- the parts of the expression take their pieces in the order of the tokens
  induction tokens generalizing before s with
  | nil =>
    rw [splits_nil]
    constructor
    · rintro ⟨⟩
      exact ⟨rfl, rfl⟩
    · rintro ⟨rfl, rfl⟩
      exact .stop .nil
  | cons token tokens ih =>
    rw [splits_cons]
    constructor
    · rintro ⟨⟩
      case taking piece rest hpiece hrest =>
        obtain ⟨hrest, hafter⟩ := ih.1 hrest
        exact ⟨⟨piece, rest, hpiece, hrest, rfl⟩, hafter⟩
    · rintro ⟨⟨piece, rest, hpiece, hrest, rfl⟩, hafter⟩
      exact .taking hpiece (ih.2 ⟨hrest, hafter⟩)

/-- Between anchors, tokens match a text that they split. -/
theorem isMatch_iff_splits :
    IsMatch (.start :: tokens.map .taking ++ [.stop]) s ↔ Splits tokens s := by
  constructor
  · rintro ⟨_, here, after, rfl, ⟨⟩⟩
    case start hmatches =>
      obtain ⟨hsplits, rfl⟩ := matches_taking_stop.1 hmatches
      simpa using hsplits
  · intro h
    exact ⟨[], s, [], by simp, .start (matches_taking_stop.2 ⟨h, rfl⟩)⟩

/-- What is written for a character is read as its token, unless a star comes after it. -/
theorem read?_written (hs : s.head? ≠ some '*') :
    read? (written c ++ s) = (read? s).map (.taking (Token.ofChar c) :: ·) := by
  by_cases hstar : c = '*'
  · subst hstar
    rfl
  by_cases hmark : c = '?'
  · subst hmark
    cases s with
    | nil => rfl
    | cons d s =>
      have hd : d ≠ '*' := fun hd => hs (congrArg some hd)
      simp [written, read?, hd, Token.ofChar]
  rw [written_of_ne hstar hmark, Token.ofChar_of_ne hstar hmark, escape]
  cases hmeta : isMeta c with
  | true => simp [read?, hmeta]
  | false =>
    -- a character without an escape is none of those that the reader treats apart
    have hne {d : Char} (hd : isMeta d = true) : c ≠ d := by
      rintro rfl
      simp [hmeta] at hd
    rw [if_neg Bool.false_ne_true, List.singleton_append, read?, if_neg (by simp [hmeta])]
    · exact hne (by decide)
    · exact hne (by decide)
    · exact fun _ hdot => absurd hdot (hne (by decide))
    · exact hne (by decide)
    · exact fun _ _ hback => absurd hback (hne (by decide))

/-- No star is written at the start of what is written for a pattern, so none is taken for one that
belongs to the character before. -/
theorem head?_written_ne (chars : List Char) :
    (chars.flatMap written ++ ['$']).head? ≠ some '*' := by
  cases chars with
  | nil => decide
  | cons c chars =>
    by_cases hstar : c = '*'
    · subst hstar
      simp [written]
    by_cases hmark : c = '?'
    · subst hmark
      simp [written]
    rw [List.flatMap_cons, written_of_ne hstar hmark, escape]
    split
    · simp
    · simpa using hstar

/-- The expression of a pattern has the tokens of the pattern between its anchors. -/
theorem read?_expression (pattern : String) : read? (expression pattern) =
    some (.start :: (pattern.toList.map Token.ofChar).map .taking ++ [.stop]) := by
  have hread (chars : List Char) : read? (chars.flatMap written ++ ['$']) =
      some ((chars.map Token.ofChar).map .taking ++ [.stop]) := by
    induction chars with
    | nil => rfl
    | cons c chars ih =>
      rw [List.flatMap_cons, List.append_assoc, read?_written (head?_written_ne chars), ih]
      rfl
  rw [expression, List.cons_append, read?, hread]
  rfl

end Expression

/-! ## What a glob accepts -/

/-- A piece fits a character of the pattern if it fits its token. -/
theorem fits_iff {p : Char} : Fits p s ↔ (Token.ofChar p).Fits s := by
  by_cases hstar : p = '*'
  · subst hstar
    rfl
  by_cases hmark : p = '?'
  · subst hmark
    rfl
  rw [Fits, if_neg hstar, if_neg hmark, Token.ofChar_of_ne hstar hmark]
  rfl

/-- A compiled pattern remembers its text. -/
theorem pattern_of_compile (h : compile pattern = .ok g) : g.pattern = pattern := by
  rw [compile] at h
  split at h
  · obtain rfl := Except.ok.inj h
    rfl
  · cases h

/-- A glob accepts an id exactly if the whole id can be cut into pieces, one for each character of
the pattern, that these take: `*` any run of characters other than line feeds, `?` one such
character, and every other character itself.  This is what a search with the expression of the
pattern finds. -/
theorem accepts_iff_fits (h : compile pattern = .ok g) (id : String) :
    (g.accepts id ↔ ∃ pieces : List (List Char), pieces.flatten = id.toList ∧
      List.Forall₂ Fits pattern.toList pieces) ∧
    ∃ parts, Expression.read? (expression pattern) = some parts ∧
      (g.accepts id ↔ Expression.IsMatch parts id.toList) := by
  obtain rfl := pattern_of_compile h
  refine ⟨?_, _, Expression.read?_expression g.pattern, ?_⟩
  · have hfits : Fits = fun p => (Token.ofChar p).Fits := by
      funext p piece
      exact propext fits_iff
    simp only [accepts_iff_splits, Splits, g.tokens_eq, List.forall₂_map_left_iff, hfits]
  · rw [Expression.isMatch_iff_splits, accepts_iff_splits, g.tokens_eq]

/-- A dot of a pattern stands for itself, and the wildcards after it share what follows. -/
theorem accepts_iff_fits_dot : ∃ g, compile "a.*?" = .ok g ∧
    (g.accepts "a.bc" ↔ ∃ pieces : List (List Char), pieces.flatten = "a.bc".toList ∧
      List.Forall₂ Fits "a.*?".toList pieces) ∧ g.accepts "a.bc" ∧ ¬g.accepts "axbc" := by
  have hsize : size ("a.*?".toList.map Token.ofChar) ≤ sizeLimit := by decide +kernel
  have haccepts := accepts_iff_fits (dif_pos hsize) "a.bc"
  refine ⟨_, dif_pos hsize, haccepts.1, haccepts.1.2 ?_, ?_⟩
  · exact ⟨[['a'], ['.'], ['b'], ['c']], rfl, by simp [Fits]⟩
  · show ¬acceptsFrom ("a.*?".toList.map Token.ofChar)
      (startRow ("a.*?".toList.map Token.ofChar) true) "axbc".toList
    decide +kernel

end Glob

end EntityCache
