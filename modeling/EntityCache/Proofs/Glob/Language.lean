import EntityCache.Glob
import Mathlib.Data.List.Forall2

/-!
# The language of a glob

A glob takes an id if the id can be cut into pieces, one for each token, that `Fit` the tokens
(`Splits`).  Reading an id character by character comes to the same (`accepts_iff_splits`).  What a
row of marks still takes is what the tokens after one of its marked places split (`Reaches`), and
this set is followed through the functions that change a row: each of them has one lemma that says
what the row takes before and after.

A row is `Closed` if a mark before a run is never without a mark after it, since a run may take
nothing.  Every row that is carried is closed, and only of such rows do the lemmas hold: a step
looks at the marks once, from the front.
-/

namespace EntityCache

namespace Glob

variable {c : Char} {rest s : List Char} {token : Token} {tokens : List Token} {row : List Bool}
  {live carried : Bool}

/-! ## Pieces and tokens -/

/-- What a token takes. -/
def Token.Fits : Token → List Char → Prop
  | run, piece => '\n' ∉ piece
  | one, piece => ∃ c, c ≠ '\n' ∧ piece = [c]
  | exactly c, piece => piece = [c]

/-- The characters can be cut into pieces that the tokens take one by one. -/
def Splits (tokens : List Token) (s : List Char) : Prop :=
  ∃ pieces : List (List Char), pieces.flatten = s ∧ List.Forall₂ Token.Fits tokens pieces

/-- Without tokens there is nothing to match. -/
@[simp] theorem splits_nil : Splits [] s ↔ s = [] := by
  constructor
  · rintro ⟨_, rfl, ⟨⟩⟩
    rfl
  · rintro rfl
    exact ⟨[], rfl, .nil⟩

/-- The first token takes a piece at the front, and the other tokens take the rest. -/
theorem splits_cons : Splits (token :: tokens) s ↔
    ∃ piece rest, token.Fits piece ∧ Splits tokens rest ∧ s = piece ++ rest := by
  -- there is a piece for each token, so the pieces are cut where the tokens are
  constructor
  · rintro ⟨_, rfl, _ | ⟨hpiece, hpieces⟩⟩
    exact ⟨_, _, hpiece, ⟨_, rfl, hpieces⟩, List.flatten_cons⟩
  · rintro ⟨piece, _, hpiece, ⟨pieces, rfl, hpieces⟩, rfl⟩
    exact ⟨piece :: pieces, List.flatten_cons, .cons hpiece hpieces⟩

/-- A run may take nothing, and no other token does. -/
theorem Token.fits_nil : token.Fits [] ↔ token.isRun := by
  cases token <;> simp [Fits, isRun]

/-- A token takes a character last, or as the first of more. -/
theorem Token.fits_cons {piece : List Char} : token.Fits (c :: piece) ↔
    (token.takes c ∧ piece = []) ∨ (token.stays c ∧ token.Fits piece) := by
  cases token with
  | run => simp [Fits, takes, stays, @eq_comm _ c]
  | one => simp [Fits, takes, stays]
  | exactly x => simp [Fits, takes, stays, @eq_comm _ c]

/-- Nothing at all is split if each token is a run, which may be empty. -/
theorem splits_cons_nil : Splits (token :: tokens) [] ↔ token.isRun ∧ Splits tokens [] := by
  rw [splits_cons, ← Token.fits_nil]
  constructor
  · rintro ⟨piece, rest, hpiece, hrest, hnil⟩
    obtain ⟨rfl, rfl⟩ := List.append_eq_nil_iff.1 hnil.symm
    exact ⟨hpiece, hrest⟩
  · rintro ⟨hpiece, hrest⟩
    exact ⟨[], [], hpiece, hrest, rfl⟩

/-- A run may be passed over. -/
theorem Splits.skip (h : Splits tokens s) (htoken : token.isRun) : Splits (token :: tokens) s :=
  splits_cons.2 ⟨[], s, Token.fits_nil.2 htoken, h, rfl⟩

/-- The next character is the last or not the last that the first token takes, or the token takes
nothing. -/
theorem splits_cons_cons : Splits (token :: tokens) (c :: rest) ↔
    (token.takes c ∧ Splits tokens rest) ∨ (token.stays c ∧ Splits (token :: tokens) rest) ∨
      (token.isRun ∧ Splits tokens (c :: rest)) := by
  -- the first piece is empty, ends with this character, or goes on after it
  constructor
  · intro h
    obtain ⟨_ | ⟨d, piece⟩, rest', hpiece, hrest, heq⟩ := splits_cons.1 h
    · rw [List.nil_append] at heq
      exact .inr (.inr ⟨Token.fits_nil.1 hpiece, heq ▸ hrest⟩)
    · obtain ⟨rfl, rfl⟩ := List.cons_eq_cons.1 heq
      -- the piece of the first token ends with this character, or goes on after it
      rcases Token.fits_cons.1 hpiece with ⟨htakes, rfl⟩ | ⟨hstays, hpiece⟩
      · exact .inl ⟨htakes, hrest⟩
      · exact .inr (.inl ⟨hstays, splits_cons.2 ⟨piece, rest', hpiece, hrest, rfl⟩⟩)
  · rintro (⟨htakes, hrest⟩ | ⟨hstays, hrest⟩ | ⟨hrun, hrest⟩)
    · exact splits_cons.2 ⟨[c], rest, Token.fits_cons.2 (.inl ⟨htakes, rfl⟩), hrest, rfl⟩
    · obtain ⟨piece, rest', hpiece, hrest', rfl⟩ := splits_cons.1 hrest
      exact splits_cons.2
        ⟨c :: piece, rest', Token.fits_cons.2 (.inr ⟨hstays, hpiece⟩), hrest', rfl⟩
    · exact hrest.skip hrun

/-! ## Rows -/

/-- What can be taken from one of the marked places on. -/
def Reaches : List Token → List Bool → List Char → Prop
  | _, [], _ => False
  | [], live :: _, s => live ∧ s = []
  | token :: tokens, live :: row, s => (live ∧ Splits (token :: tokens) s) ∨ Reaches tokens row s

/-- The place after a marked run is marked too. -/
def Closed : List Token → List Bool → Prop
  | token :: tokens, live :: row => (live → token.isRun → row.head? = some true) ∧ Closed tokens row
  | _, _ => True

/-- No place is reached without a row. -/
@[simp] theorem not_reaches_nil : ¬Reaches tokens [] s := by
  cases tokens <;> exact id

/-- The end is reached from here if the place is live, or from one of the places after it. -/
theorem reaches_cons : Reaches (token :: tokens) (live :: row) s ↔
    (live ∧ Splits (token :: tokens) s) ∨ Reaches tokens row s := .rfl

/-- From a place that is marked everything can be taken that its tokens split. -/
theorem reaches_of_head? (hrow : row.head? = some true) (h : Splits tokens s) :
    Reaches tokens row s := by
  obtain ⟨row, rfl⟩ := List.head?_eq_some_iff.1 hrow
  cases tokens with
  | nil => exact ⟨rfl, splits_nil.1 h⟩
  | cons token tokens => exact .inl ⟨rfl, h⟩

/-- Nothing more is to be taken where the last place is marked. -/
theorem atEnd_iff_reaches (h : Closed tokens row) : atEnd tokens row ↔ Reaches tokens row [] := by
  induction tokens generalizing row with
  | nil => cases row <;> simp [atEnd, Reaches]
  | cons token tokens ih =>
    cases row with
    | nil => simp [atEnd]
    | cons live row =>
      obtain ⟨hnext, hrow⟩ := h
      have hatEnd : atEnd (token :: tokens) (live :: row) = atEnd tokens row := rfl
      rw [hatEnd, ih hrow, reaches_cons, splits_cons_nil]
      constructor
      · exact .inr
      · rintro (⟨hlive, hrun, hnil⟩ | hreaches)
        · exact reaches_of_head? (hnext hlive hrun) hnil
        · exact hreaches

/-- The first row takes what the tokens split. -/
theorem reaches_startRow : Reaches tokens (startRow tokens live) s ↔ live ∧ Splits tokens s := by
  induction tokens generalizing live with
  | nil => cases live <;> simp [startRow, Reaches]
  | cons token tokens ih =>
    cases live with
    | false => simp [startRow]
    | true =>
      rw [startRow, reaches_cons, ih]
      exact or_iff_left_of_imp fun ⟨hrun, h⟩ => ⟨rfl, h.skip hrun⟩

/-- The first place is live at the start. -/
theorem head?_startRow (tokens : List Token) : (startRow tokens true).head? = some true := by
  cases tokens <;> rfl

/-- The starting row is closed: it goes on past runs. -/
theorem closed_startRow (tokens : List Token) (live : Bool) :
    Closed tokens (startRow tokens live) := by
  induction tokens generalizing live with
  | nil => trivial
  | cons token tokens ih =>
    cases live with
    | false => trivial
    | true =>
      refine ⟨fun _ hrun => ?_, ih token.isRun⟩
      rw [hrun]
      exact head?_startRow tokens

/-- After a character the row takes what it has taken with this character in front, and what the
tokens split if its first place has just been reached. -/
theorem reaches_stepRow (h : Closed tokens row) : Reaches tokens (stepRow c tokens row carried) s ↔
    (carried ∧ Splits tokens s) ∨ Reaches tokens row (c :: s) := by
  induction tokens generalizing row carried with
  | nil => cases carried <;> cases row <;> simp [stepRow, Reaches]
  | cons token tokens ih =>
    cases row with
    | nil =>
      cases carried with
      | false => simp [stepRow]
      | true =>
        have hclosed : Closed tokens [] := by cases tokens <;> trivial
        rw [stepRow, if_pos rfl, reaches_cons, ih hclosed]
        simp only [not_reaches_nil, or_false, true_and]
        exact or_iff_left_of_imp fun ⟨hrun, h⟩ => h.skip hrun
    | cons live row =>
      obtain ⟨hnext, hrow⟩ := h
      rw [stepRow, reaches_cons, ih hrow, reaches_cons, splits_cons_cons]
      simp only [Bool.or_eq_true, Bool.and_eq_true]
      constructor
      · rintro (⟨hcarried | ⟨hlive, hstays⟩, h⟩ | ⟨⟨hlive, htakes⟩ | ⟨hhere, hrun⟩, h⟩ | h)
        · exact .inl ⟨hcarried, h⟩
        · exact .inr (.inl ⟨hlive, .inr (.inl ⟨hstays, h⟩)⟩)
        · exact .inr (.inl ⟨hlive, .inl ⟨htakes, h⟩⟩)
        · -- what follows a run that is reached is split together with it
          rcases hhere with hcarried | ⟨hlive, hstays⟩
          · exact .inl ⟨hcarried, h.skip hrun⟩
          · exact .inr (.inl ⟨hlive, .inr (.inl ⟨hstays, h.skip hrun⟩)⟩)
        · exact .inr (.inr h)
      · rintro (⟨hcarried, h⟩ | ⟨hlive, ⟨htakes, h⟩ | ⟨hstays, h⟩ | ⟨hrun, h⟩⟩ | h)
        · exact .inl ⟨.inl hcarried, h⟩
        · exact .inr (.inl ⟨.inl ⟨hlive, htakes⟩, h⟩)
        · exact .inl ⟨.inr ⟨hlive, hstays⟩, h⟩
        · -- the run takes nothing, and the place after it is marked
          exact .inr (.inr (reaches_of_head? (hnext hlive hrun) h))
        · exact .inr (.inr h)

/-- What is carried into a row is its first place. -/
theorem head?_stepRow (c : Char) (tokens : List Token) (row : List Bool) :
    (stepRow c tokens row true).head? = some true := by
  cases tokens <;> cases row <;> simp [stepRow]

/-- A step leads to a row that is closed. -/
theorem closed_stepRow (c : Char) (tokens : List Token) (row : List Bool) (carried : Bool) :
    Closed tokens (stepRow c tokens row carried) := by
  induction tokens generalizing row carried with
  | nil => trivial
  | cons token tokens ih =>
    cases row with
    | nil =>
      cases carried with
      | false => trivial
      | true =>
        refine ⟨fun _ hrun => ?_, ih _ _⟩
        rw [hrun]
        exact head?_stepRow ..
    | cons live row =>
      refine ⟨fun hhere hrun => ?_, ih _ _⟩
      simp only [hhere, hrun, Bool.and_true, Bool.or_true]
      exact head?_stepRow ..

/-- Places that are not marked may be dropped. -/
theorem reaches_dropDead :
    Reaches (dropDead tokens row).1 (dropDead tokens row).2 s ↔ Reaches tokens row s := by
  induction tokens generalizing row with
  | nil => rfl
  | cons token tokens ih =>
    match row with
    | [] | true :: row => rfl
    | false :: row =>
      rw [dropDead, ih, reaches_cons]
      simp

/-- A row stays closed without the dead places at its front. -/
theorem closed_dropDead (h : Closed tokens row) :
    Closed (dropDead tokens row).1 (dropDead tokens row).2 := by
  induction tokens generalizing row with
  | nil => exact h
  | cons token tokens ih =>
    match row, h with
    | [], h | true :: row, h => exact h
    | false :: row, h => exact ih h.2

/-- Reading an id from a row on finds out whether the row takes it. -/
theorem acceptsFrom_iff_reaches (h : Closed tokens row) :
    acceptsFrom tokens row s ↔ Reaches tokens row s := by
  -- each character is a step of the row, and dead places at its front reach nothing
  induction s generalizing tokens row with
  | nil => exact atEnd_iff_reaches h
  | cons c rest ih =>
    have hclosed := closed_dropDead (closed_stepRow c tokens row false)
    have hreaches : Reaches tokens row (c :: rest) ↔
        Reaches (dropDead tokens (stepRow c tokens row false)).1
          (dropDead tokens (stepRow c tokens row false)).2 rest := by
      rw [reaches_dropDead, reaches_stepRow h]
      simp
    rw [acceptsFrom, hreaches]
    split
    case h_1 hempty =>
      rw [hempty]
      simp
    case h_2 hdropped =>
      rw [hdropped] at hclosed ⊢
      exact ih hclosed

/-- A glob takes the ids that its tokens split. -/
theorem accepts_iff_splits (g : Glob) (id : String) :
    g.accepts id ↔ Splits g.tokens id.toList := by
  rw [accepts, acceptsFrom_iff_reaches (closed_startRow ..), reaches_startRow]
  exact and_iff_right rfl

end Glob

end EntityCache
