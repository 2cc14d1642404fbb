import EntityCache.Entity.Encoding
import Mathlib.Algebra.Group.Int.Defs
import Mathlib.Data.String.Basic
import Mathlib.Tactic.ByContra
import Mathlib.Tactic.Tauto

/-!
# Strings and numbers are read back from their text

The printer escapes a string one character at a time, and the reader takes one piece for each
escape, so a string is read back by induction on its characters (`readString_printed`).

A number has no closing mark.  It ends where the text goes on with something that cannot belong to
it, which `EndsNumber` says of the rest; `readNumber_append` carries what is read from the number
alone to the number in front of such a rest.  Integers of a word read back always
(`Number.readsBack_integer`); of a double the printer chooses the shortest digits, and
`Number.ReadsBack` is the property a reader needs of them.
-/

namespace EntityCache

namespace Json

/-! ## Strings -/

/-- What a written character is read back as: a numeric escape is a unit, all else a character. -/
def pieceOf (c : Char) : Piece :=
  if c.toNat < 0x20 ∧ c ∉ ['\x08', '\x0c', '\n', '\r', '\t'] then .unit c.toNat else .char c

/-- A written hexadecimal digit has its own value. -/
theorem hexValue?_hexDigit : ∀ n < 16, hexValue? (hexDigit n) = some n := by decide

/-- The four digits written for a control character are read as its number. -/
theorem hexUnit?_control {n : Nat} (h : n < 0x20) :
    hexUnit? '0' '0' (hexDigit (n / 16)) (hexDigit n) = some n := by
  have hmod : hexDigit n = hexDigit (n % 16) := by simp [hexDigit]
  have hzero : hexValue? '0' = some 0 := by decide
  rw [hmod]
  simp only [hexUnit?, hexValue?_hexDigit _ (by omega : n / 16 < 16),
    hexValue?_hexDigit _ (by omega : n % 16 < 16), hzero, Option.some.injEq]
  omega

/-- One written character is read as one piece. -/
theorem readPieces_escapeChar (c : Char) (rest : List Char) :
    readPieces (escapeChar c ++ rest) =
      (readPieces rest).map fun (pieces, left) => (pieceOf c :: pieces, left) := by
  unfold escapeChar
  split
  -- the last case is that of a character without a short escape
  case h_8 _ h1 h2 h3 h4 h5 h6 h7 =>
    split
    case isTrue hc =>
      have hp : pieceOf c = .unit c.toNat := by
        simp only [pieceOf, List.mem_cons, List.not_mem_nil, or_false]
        rw [if_pos ⟨hc, by tauto⟩]
      simp [readPieces, hexUnit?_control hc, hp]
    case isFalse hc =>
      have hp : pieceOf c = .char c := if_neg fun h => hc h.1
      have hplain : (c == '\\' || decide (c.toNat < 0x20)) = false := by
        simpa [hc] using h2
      rw [List.singleton_append, readPieces.eq_def]
      split <;> simp_all
  all_goals
    simp [readPieces, shortEscape?, pieceOf]
    try decide

/-- The piece of a character stands for the character, whatever follows. -/
theorem joinPieces_pieceOf (c : Char) (pieces : List Piece) :
    joinPieces (pieceOf c :: pieces) = (joinPieces pieces).map (c :: ·) := by
  unfold pieceOf
  split
  case isTrue h =>
    -- a control character is no half of a pair, so its unit stands for itself
    have hlow : c.toNat < 0xD800 ∨ 0xE000 ≤ c.toNat := by omega
    rw [joinPieces.eq_def]
    simp only [if_pos hlow, Char.ofNat_toNat]
  case isFalse => rw [joinPieces]

/-- A written string is read back, up to its closing quote. -/
theorem readString_printed (s : String) (rest : List Char) :
    readString (s.toList.flatMap escapeChar ++ '"' :: rest) = some (some s, rest) := by
  have hread (cs : List Char) :
      readPieces (cs.flatMap escapeChar ++ '"' :: rest) = some (cs.map pieceOf, rest) := by
    induction cs with
    | nil => rfl
    | cons c cs ih =>
      rw [List.flatMap_cons, List.append_assoc, readPieces_escapeChar, ih]
      rfl
  have hjoin (cs : List Char) : joinPieces (cs.map pieceOf) = some cs := by
    induction cs with
    | nil => rfl
    | cons c cs ih => rw [List.map_cons, joinPieces_pieceOf, ih]; rfl
  simp [readString, hread, hjoin, String.ofList_toList]

/-! ## Numbers -/

/-- The text does not go on with anything that could belong to a number before it. -/
def EndsNumber (rest : List Char) : Prop :=
  ∀ c ∈ rest.head?, c.isDigit = false ∧ c ≠ '.' ∧ c ≠ 'e' ∧ c ≠ 'E'

theorem endsNumber_nil : EndsNumber [] := by simp [EndsNumber]

/-- The three characters that may follow an item or a field end a number. -/
theorem endsNumber_cons {c : Char} (hc : c ∈ [',', ']', '}']) (rest : List Char) :
    EndsNumber (c :: rest) := by
  simp only [List.mem_cons, List.not_mem_nil, or_false] at hc
  rcases hc with rfl | rfl | rfl <;> simp [EndsNumber]

/-- At least one character, and all of them digits. -/
def IsDigits (cs : List Char) : Prop := cs ≠ [] ∧ ∀ c ∈ cs, c.isDigit = true

variable {digits whole rest : List Char}

/-- What does not start with a digit has no digits at its front. -/
theorem takeWhile_isDigit_eq_nil (h : ∀ c ∈ rest.head?, c.isDigit = false) :
    rest.takeWhile Char.isDigit = [] := by
  cases rest with
  | nil => rfl
  | cons c cs => simp [h c rfl]

/-- Nothing is dropped where no digit comes first. -/
theorem dropWhile_isDigit_eq_self (h : ∀ c ∈ rest.head?, c.isDigit = false) :
    rest.dropWhile Char.isDigit = rest := by
  cases rest with
  | nil => rfl
  | cons c cs => simp [h c rfl]

/-- Digits are read up to the first character that is none. -/
theorem readDigits_front (h : IsDigits digits) (hrest : ∀ c ∈ rest.head?, c.isDigit = false) :
    readDigits (digits ++ rest) = some (digits, rest) := by
  obtain ⟨c, cs, rfl⟩ := List.exists_cons_of_ne_nil h.1
  rw [readDigits, List.takeWhile_append_of_pos h.2, List.dropWhile_append_of_pos h.2,
    takeWhile_isDigit_eq_nil hrest, dropWhile_isDigit_eq_self hrest, List.append_nil]

/-- So are the digits before the point, which start with a zero only if they are one. -/
theorem readWhole_front (h : IsDigits whole) (hzero : whole.head? = some '0' → whole = ['0'])
    (hrest : ∀ c ∈ rest.head?, c.isDigit = false) :
    readWhole (whole ++ rest) = some (whole, rest) := by
  obtain ⟨c, cs, rfl⟩ := List.exists_cons_of_ne_nil h.1
  by_cases hc : c = '0'
  · obtain rfl : cs = [] := by simpa [hc] using hzero
    subst hc
    have hhead : rest.head?.any Char.isDigit = false := by
      cases rest with
      | nil => rfl
      | cons d ds => exact hrest d rfl
    rw [List.singleton_append, readWhole, hhead, if_neg Bool.false_ne_true]
  · rw [← readDigits_front h hrest, List.cons_append, readWhole.eq_def]
    split
    case h_1 heq => exact absurd (List.cons.inj heq).1 hc
    case h_2 => rfl

/-- No digit stands at the front of a text that ends a number. -/
theorem EndsNumber.not_isDigit (h : EndsNumber rest) : ∀ c ∈ rest.head?, c.isDigit = false :=
  fun c hc => (h c hc).1

/-- Digits are read in the same way in front of a text that ends a number. -/
theorem readDigits_append (h : EndsNumber rest) {cs digits left : List Char}
    (hread : readDigits cs = some (digits, left)) :
    readDigits (cs ++ rest) = some (digits, left ++ rest) := by
  -- what follows a number does not begin with a digit, so the digits end where they did
  have htake : (cs ++ rest).takeWhile Char.isDigit = cs.takeWhile Char.isDigit := by
    rw [List.takeWhile_append, takeWhile_isDigit_eq_nil h.not_isDigit, List.append_nil]
    split
    · exact ((List.takeWhile_prefix _).eq_of_length (by assumption)).symm
    · rfl
  have hdrop : (cs ++ rest).dropWhile Char.isDigit = cs.dropWhile Char.isDigit ++ rest := by
    rw [List.dropWhile_append, dropWhile_isDigit_eq_self h.not_isDigit]
    split
    case isTrue hempty => rw [List.isEmpty_iff.1 hempty, List.nil_append]
    case isFalse => rfl
  rw [readDigits, htake, hdrop]
  unfold readDigits at hread
  split at hread
  · simp at hread
  · simp only [Option.some.injEq, Prod.mk.injEq] at hread
    obtain ⟨rfl, rfl⟩ := hread
    rfl

/-- So is the part before the point, whose leading zero stands alone. -/
theorem readWhole_append (h : EndsNumber rest) {cs digits left : List Char}
    (hread : readWhole cs = some (digits, left)) :
    readWhole (cs ++ rest) = some (digits, left ++ rest) := by
  unfold readWhole at hread
  split at hread
  case h_1 cs =>
    split at hread
    · simp at hread
    case isFalse hdigit =>
      simp only [Option.some.injEq, Prod.mk.injEq] at hread
      obtain ⟨rfl, rfl⟩ := hread
      have hhead : (cs ++ rest).head?.any Char.isDigit = false := by
        cases cs with
        | nil =>
          cases rest with
          | nil => rfl
          | cons c _ => simpa using (h c rfl).1
        | cons c _ => simpa using hdigit
      rw [List.cons_append, readWhole, if_neg (by rw [hhead]; exact Bool.false_ne_true)]
  case h_2 hzero =>
    rw [readWhole.eq_def]
    -- the first character is the same with and without the rest
    split
    case h_1 tail heq =>
      cases cs with
      | nil => simp [readDigits] at hread
      | cons c cs =>
        simp only [List.cons_append, List.cons.injEq] at heq
        exact absurd (by rw [heq.1]) (hzero cs)
    case h_2 => exact readDigits_append h hread

/-- So is the fraction: the text behind does not start with a point. -/
theorem readFraction_append (h : EndsNumber rest) {cs left : List Char}
    {fraction : Option (List Char)} (hread : readFraction cs = some (fraction, left)) :
    readFraction (cs ++ rest) = some (fraction, left ++ rest) := by
  unfold readFraction at hread
  split at hread
  case h_1 cs =>
    obtain ⟨⟨digits, left'⟩, hdigits, heq⟩ := Option.map_eq_some_iff.1 hread
    simp only [Prod.mk.injEq] at heq
    obtain ⟨rfl, rfl⟩ := heq
    simp [readFraction, readDigits_append h hdigits]
  case h_2 hpoint =>
    simp only [Option.some.injEq, Prod.mk.injEq] at hread
    obtain ⟨rfl, rfl⟩ := hread
    rw [readFraction.eq_def]
    split
    case h_1 tail heq =>
      cases cs with
      | nil =>
        rw [List.nil_append] at heq
        exact absurd rfl (h '.' (by rw [heq]; rfl)).2.1
      | cons c cs =>
        simp only [List.cons_append, List.cons.injEq] at heq
        exact absurd (by rw [heq.1]) (hpoint cs)
    case h_2 => rfl

/-- So are the digits of an exponent, with or without a sign. -/
theorem readSignedDigits_append (h : EndsNumber rest) {cs left : List Char} {e : Int}
    (hread : readSignedDigits cs = some (e, left)) :
    readSignedDigits (cs ++ rest) = some (e, left ++ rest) := by
  unfold readSignedDigits at hread
  split at hread
  case h_1 | h_2 =>
    obtain ⟨⟨digits, left'⟩, hdigits, heq⟩ := Option.map_eq_some_iff.1 hread
    simp only [Prod.mk.injEq] at heq
    obtain ⟨rfl, rfl⟩ := heq
    simp [readSignedDigits, readDigits_append h hdigits]
  case h_3 hminus hplus =>
    obtain ⟨⟨digits, left'⟩, hdigits, heq⟩ := Option.map_eq_some_iff.1 hread
    simp only [Prod.mk.injEq] at heq
    obtain ⟨rfl, rfl⟩ := heq
    cases cs with
    | nil => simp [readDigits] at hdigits
    | cons c cs =>
      -- without a sign in front there is none with more behind either
      have hc : c ≠ '-' ∧ c ≠ '+' := by
        constructor
        · rintro rfl
          exact hminus cs rfl
        · rintro rfl
          exact hplus cs rfl
      have happend := readDigits_append h hdigits
      rw [List.cons_append] at happend ⊢
      rw [readSignedDigits.eq_def]
      split <;> simp_all

/-- So is the exponent: the text behind does not start with an `e`. -/
theorem readExponent_append (h : EndsNumber rest) {cs left : List Char} {e : Option Int}
    (hread : readExponent cs = some (e, left)) :
    readExponent (cs ++ rest) = some (e, left ++ rest) := by
  -- at the end of a number no exponent begins
  cases cs with
  | nil =>
    simp only [readExponent, Option.some.injEq, Prod.mk.injEq] at hread
    obtain ⟨rfl, rfl⟩ := hread
    cases rest with
    | nil => rfl
    | cons c cs => simp [readExponent, (h c rfl).2.2.1, (h c rfl).2.2.2]
  | cons c cs =>
    rw [List.cons_append, readExponent]
    rw [readExponent] at hread
    split
    case isTrue hc =>
      rw [if_pos hc] at hread
      obtain ⟨⟨digits, left'⟩, hdigits, heq⟩ := Option.map_eq_some_iff.1 hread
      simp only [Prod.mk.injEq] at heq
      obtain ⟨rfl, rfl⟩ := heq
      simp [readSignedDigits_append h hdigits]
    case isFalse hc =>
      rw [if_neg hc] at hread
      simp only [Option.some.injEq, Prod.mk.injEq] at hread
      obtain ⟨rfl, rfl⟩ := hread
      rfl

/-- A number is read in the same way whatever text follows it, if that cannot belong to it. -/
theorem readNumber_append (h : EndsNumber rest) {cs left : List Char} {n : NumberText}
    (hread : readNumber cs = some (n, left)) :
    readNumber (cs ++ rest) = some (n, left ++ rest) := by
  cases cs with
  | nil => simp [readNumber, readWhole, readDigits] at hread
  | cons c cs =>
    have hhead : ((c :: cs) ++ rest).head? = (c :: cs).head? := rfl
    have htail : (if (c :: cs).head? == some '-' then ((c :: cs) ++ rest).tail
        else (c :: cs) ++ rest) =
        (if (c :: cs).head? == some '-' then (c :: cs).tail else c :: cs) ++ rest := by
      split <;> rfl
    simp only [readNumber] at hread ⊢
    -- behind the sign, if there is one, the three parts are read one after another
    rw [hhead, htail]
    split at hread
    · simp at hread
    case h_2 whole left₁ hwhole =>
      split at hread
      · simp at hread
      case h_2 fraction left₂ hfraction =>
        obtain ⟨⟨e, left₃⟩, hexponent, heq⟩ := Option.map_eq_some_iff.1 hread
        simp only [Prod.mk.injEq] at heq
        obtain ⟨rfl, rfl⟩ := heq
        rw [readWhole_append h hwhole]
        simp only [readFraction_append h hfraction, readExponent_append h hexponent,
          Option.map_some]

/-! ## Integers -/

/-- The digits that follow only make a number larger. -/
theorem le_ofDigitChars (cs : List Char) (init : Nat) : init ≤ Nat.ofDigitChars 10 cs init := by
  rw [Nat.ofDigitChars_eq_ofDigitChars_zero]
  exact Nat.le_trans (Nat.le_mul_of_pos_left _ (Nat.pow_pos (by decide))) (Nat.le_add_right _ _)

/-- Digits whose number fits a word are all taken, and give the number. -/
theorem takeDigits_eq {cs : List Char} {significand : Nat}
    (h : Nat.ofDigitChars 10 cs significand ≤ NumberText.wordMax) :
    NumberText.takeDigits significand cs = (Nat.ofDigitChars 10 cs significand, cs.length, 0) := by
  induction cs generalizing significand with
  | nil => simp [NumberText.takeDigits]
  | cons c cs ih =>
    rw [Nat.ofDigitChars_cons, Nat.mul_comm] at h
    have hle : significand * 10 + (c.toNat - '0'.toNat) ≤ NumberText.wordMax :=
      (le_ofDigitChars _ _).trans h
    unfold NumberText.takeDigits
    simp only [if_pos hle, ih h, Nat.ofDigitChars_cons, List.length_cons, Nat.mul_comm]

/-- Only zero is written with a leading zero. -/
theorem head?_toDigits_eq_zero {n : Nat} (h : (Nat.toDigits 10 n).head? = some '0') : n = 0 := by
  induction n using Nat.base_induction 10 (by decide) with
  | single m hm => simpa [Nat.toDigits_of_lt_base hm] using h
  | digit m k hk hm ih =>
    -- the first digit is that of the number without its last one
    rw [← Nat.toDigits_append_toDigits (by decide) hm hk, List.head?_append] at h
    obtain ⟨c, cs, hcs⟩ := List.exists_cons_of_ne_nil (Nat.toDigits_ne_nil (n := m) (b := 10))
    rw [hcs] at h ih
    exact absurd (ih (by simpa using h)) (by omega)

/-- What a natural number is printed as are digits. -/
theorem isDigits_toDigits (n : Nat) : IsDigits (Nat.toDigits 10 n) :=
  ⟨Nat.toDigits_ne_nil, fun _ hc => Nat.isDigit_of_mem_toDigits (by decide) (by decide) hc⟩

/-- The digits of a natural number are read as a whole number, to their end. -/
theorem readWhole_toDigits (n : Nat) :
    readWhole (Nat.toDigits 10 n) = some (Nat.toDigits 10 n, []) := by
  have hzero (h : (Nat.toDigits 10 n).head? = some '0') : Nat.toDigits 10 n = ['0'] := by
    rw [head?_toDigits_eq_zero h, Nat.toDigits_zero]
  simpa using @readWhole_front _ [] (isDigits_toDigits n) hzero (by simp)

/-- The number in the text reads back as the number. -/
def Number.ReadsBack (n : Number) : Prop :=
  ∃ text, readNumber n.print = some (text, []) ∧ text.value? = some n

/-- The text of a natural number is read as its digits. -/
theorem readNumber_toDigits (n : Nat) :
    readNumber (Nat.toDigits 10 n) = some (⟨false, Nat.toDigits 10 n, none, none⟩, []) := by
  have hminus : ((Nat.toDigits 10 n).head? == some '-') = false := by
    rw [beq_eq_false_iff_ne]
    intro h
    exact absurd (Nat.isDigit_of_mem_toDigits (by decide) (by decide) (List.mem_of_head? h))
      (by decide)
  simp only [readNumber, hminus, Bool.false_eq_true, if_false, readWhole_toDigits, readFraction,
    readExponent, Option.map_some]

/-- The text of a negative integer is read as a sign and digits. -/
theorem readNumber_minus_toDigits (n : Nat) :
    readNumber ('-' :: Nat.toDigits 10 n) = some (⟨true, Nat.toDigits 10 n, none, none⟩, []) := by
  simp [readNumber, readWhole_toDigits, readFraction, readExponent]

/-- Every integer in the range of a signed or an unsigned word reads back. -/
theorem Number.readsBack_integer {n : Int} (hlow : -2 ^ 63 ≤ n) (hhigh : n < 2 ^ 64) :
    (Number.integer n).ReadsBack := by
  have htake (m : Nat) (hm : m ≤ NumberText.wordMax) :
      NumberText.takeDigits 0 (Nat.toDigits 10 m) = (m, (Nat.toDigits 10 m).length, 0) := by
    rw [takeDigits_eq] <;> simp [hm]
  -- the sign decides which range the digits must be in
  cases n with
  | ofNat m =>
    have hprint : (Number.integer (.ofNat m)).print = Nat.toDigits 10 m := Nat.toList_repr
    have hm : m ≤ NumberText.wordMax := by
      have : (m : Int) < 2 ^ 64 := hhigh
      simp only [NumberText.wordMax]; omega
    refine ⟨_, by rw [hprint]; exact readNumber_toDigits m, ?_⟩
    simp [NumberText.value?, htake m hm]
  | negSucc m =>
    have hprint : (Number.integer (.negSucc m)).print = '-' :: Nat.toDigits 10 (m + 1) := by
      show ("-" ++ Nat.repr (m + 1)).toList = _
      rw [String.toList_append, Nat.toList_repr]
      rfl
    have hm : m + 1 ≤ 2 ^ 63 := by omega
    refine ⟨_, by rw [hprint]; exact readNumber_minus_toDigits (m + 1), ?_⟩
    simp only [NumberText.value?, Nat.pow_eq, htake (m + 1) (by simp only [NumberText.wordMax]; omega)]
    have hrange : 0 < m + 1 ∧ m + 1 ≤ 2 ^ 63 := ⟨Nat.succ_pos m, hm⟩
    simp only [Bool.not_true, Bool.false_eq_true, if_false, if_pos hrange]
    rfl

end Json

end EntityCache
