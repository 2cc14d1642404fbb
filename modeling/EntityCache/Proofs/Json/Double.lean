import EntityCache.Proofs.Decimal.Shortest
import EntityCache.Proofs.Json.Text

/-!
# The text of a double is read as a number

The layout of a double has up to three parts: digits before the point, digits behind it, and an
exponent.  `standsFor_parts` reads a text of these parts to its end and says which decimal it
stands for.  Each of the four layouts of a decimal has such parts (`standsFor_renderDecimal`), so
every double is read as some double (`Number.legible_double`).  It need not be the same one, since
the reader rounds more than once.
-/

namespace EntityCache

namespace Json

open Double

/-- The text of the number is read to its end, and stands for a number. -/
def Number.Legible (n : Number) : Prop :=
  ∃ text v, readNumber n.print = some (text, []) ∧ text.value? = some v

/-- A number that is read back is read at all. -/
theorem Number.ReadsBack.legible {n : Number} (h : n.ReadsBack) : n.Legible := by
  obtain ⟨text, hread, hvalue⟩ := h
  exact ⟨text, n, hread, hvalue⟩

/-! ## The parts of a number -/

/-- The characters of a sign. -/
def signChars (negative : Bool) : List Char := if negative then ['-'] else []

/-- The characters of a fraction: a point and digits, or nothing. -/
def fractionChars : Option (List Char) → List Char
  | none => []
  | some digits => '.' :: digits

/-- With a sign before it, the text is read to its end and stands for this decimal. -/
def StandsFor (cs : List Char) (significand : Nat) (exponent : Int) : Prop :=
  ∀ negative, ∃ text, readNumber (signChars negative ++ cs) = some (text, []) ∧
    text.value? = (ofDecimal negative significand exponent).map .double

variable {digits whole rest : List Char} {fraction : Option (List Char)} {exponent : Option Int}

theorem isDigits_zero : IsDigits ['0'] := isDigits_toDigits 0

/-- Zeros before digits are digits. -/
theorem IsDigits.zeros_append (h : IsDigits digits) (count : Nat) :
    IsDigits (List.replicate count '0' ++ digits) := by
  refine ⟨by simp [h.1], fun c hc => ?_⟩
  rcases List.mem_append.1 hc with hc | hc
  · rw [List.eq_of_mem_replicate hc]
    rfl
  · exact h.2 c hc

/-- Zeros after digits are digits. -/
theorem IsDigits.append_zeros (h : IsDigits digits) (count : Nat) :
    IsDigits (digits ++ List.replicate count '0') := by
  refine ⟨by simp [h.1], fun c hc => ?_⟩
  rcases List.mem_append.1 hc with hc | hc
  · exact h.2 c hc
  · rw [List.eq_of_mem_replicate hc]
    rfl

/-- The first digits are digits. -/
theorem IsDigits.take (h : IsDigits digits) {count : Nat} (hcount : 0 < count) :
    IsDigits (digits.take count) :=
  ⟨by simp [h.1, hcount.ne'], fun c hc => h.2 c (List.mem_of_mem_take hc)⟩

/-- The last digits are digits. -/
theorem IsDigits.drop (h : IsDigits digits) {count : Nat} (hcount : count < digits.length) :
    IsDigits (digits.drop count) :=
  ⟨by simpa using hcount, fun c hc => h.2 c (List.mem_of_mem_drop hc)⟩

/-- A text of a sign, digits, a fraction and an exponent is read to its end. -/
theorem readNumber_parts (negative : Bool) (hwhole : IsDigits whole)
    (hzero : whole.head? = some '0' → whole = ['0']) (hfraction : ∀ ds ∈ fraction, IsDigits ds)
    (hstart : ∀ c ∈ rest.head?, c = 'e') (hexponent : readExponent rest = some (exponent, [])) :
    readNumber (signChars negative ++ (whole ++ (fractionChars fraction ++ rest))) =
      some (⟨negative, whole, fraction, exponent⟩, []) := by
  have hplain : ∀ c ∈ rest.head?, c.isDigit = false := fun c hc => by rw [hstart c hc]; rfl
  have hread : readFraction (fractionChars fraction ++ rest) = some (fraction, rest) := by
    cases fraction with
    | some ds => simp [fractionChars, readFraction, readDigits_front (hfraction ds rfl) hplain]
    | none =>
      rw [fractionChars, List.nil_append, readFraction.eq_def]
      split
      case h_1 => exact absurd (hstart '.' rfl) (by decide)
      case h_2 => rfl
  -- what comes after the whole part is a point or the exponent, but no digit
  have hbehind : ∀ c ∈ (fractionChars fraction ++ rest).head?, c.isDigit = false := by
    cases fraction with
    | some ds =>
      rintro c ⟨⟩
      rfl
    | none => exact hplain
  obtain ⟨c, cs, hcs⟩ := List.exists_cons_of_ne_nil hwhole.1
  have hsign : c ≠ '-' := by
    rintro rfl
    exact absurd (hwhole.2 '-' (by simp [hcs])) (by decide)
  have hread' := readWhole_front hwhole hzero hbehind
  cases negative with
  | true => simp [readNumber, signChars, hread', hread, hexponent]
  | false =>
    have hminus : ((whole ++ (fractionChars fraction ++ rest)).head? == some '-') = false := by
      simpa [hcs] using hsign
    rw [signChars, if_neg Bool.false_ne_true, List.nil_append]
    simp only [readNumber, hminus, if_neg Bool.false_ne_true, hread', hread, hexponent,
      Option.map_some]

/-! ## The value of the parts -/

/-- A number with a fraction or an exponent, whose digits fit a word, stands for a decimal. -/
theorem value?_of_parts (negative : Bool) (hdecimal : fraction.isSome ∨ exponent.isSome)
    (hfit : Nat.ofDigitChars 10 (whole ++ fraction.getD []) 0 ≤ NumberText.wordMax) :
    (NumberText.mk negative whole fraction exponent).value? =
      (ofDecimal negative (Nat.ofDigitChars 10 (whole ++ fraction.getD []) 0)
        (exponent.getD 0 - (fraction.getD []).length)).map .double := by
  rw [Nat.ofDigitChars_append] at hfit ⊢
  have hwhole := takeDigits_eq ((le_ofDigitChars _ _).trans hfit)
  have hfraction := takeDigits_eq hfit
  simp only [NumberText.value?, hwhole]
  split
  case h_1 => simp at hdecimal
  case h_2 =>
    rw [hfraction]
    congr 2
    simp only
    omega

/-- A text of these parts stands for the decimal of its digits. -/
theorem standsFor_parts (hwhole : IsDigits whole)
    (hzero : whole.head? = some '0' → whole = ['0']) (hfraction : ∀ ds ∈ fraction, IsDigits ds)
    (hstart : ∀ c ∈ rest.head?, c = 'e') (hexponent : readExponent rest = some (exponent, []))
    (hdecimal : fraction.isSome ∨ exponent.isSome)
    (hfit : Nat.ofDigitChars 10 (whole ++ fraction.getD []) 0 ≤ NumberText.wordMax) :
    StandsFor (whole ++ (fractionChars fraction ++ rest))
      (Nat.ofDigitChars 10 (whole ++ fraction.getD []) 0)
      (exponent.getD 0 - (fraction.getD []).length) := fun negative =>
  ⟨_, readNumber_parts negative hwhole hzero hfraction hstart hexponent,
    value?_of_parts negative hdecimal hfit⟩

/-- Most layouts have a fraction and no exponent. -/
theorem standsFor_fraction (hwhole : IsDigits whole)
    (hzero : whole.head? = some '0' → whole = ['0']) (hdigits : IsDigits digits)
    (hfit : Nat.ofDigitChars 10 (whole ++ digits) 0 ≤ NumberText.wordMax) :
    StandsFor (whole ++ '.' :: digits) (Nat.ofDigitChars 10 (whole ++ digits) 0)
      (-digits.length) := by
  have hparts := @standsFor_parts whole [] (some digits) none hwhole hzero
    (by rintro ds ⟨⟩; exact hdigits) (by simp) rfl (.inl rfl) hfit
  simpa [fractionChars] using hparts

/-! ## The layouts of a decimal -/

/-- The value of digits is that of the library. -/
theorem digitsValue_eq (cs : List Char) : digitsValue cs = Nat.ofDigitChars 10 cs 0 := by
  rw [digitsValue, Nat.ofDigitChars]
  congr
  funext n c
  rw [Nat.mul_comm]

/-- Zeros in front do not change the number. -/
theorem ofDigitChars_zeros_append (count : Nat) (cs : List Char) :
    Nat.ofDigitChars 10 (List.replicate count '0' ++ cs) 0 = Nat.ofDigitChars 10 cs 0 := by
  rw [Nat.ofDigitChars_append, Nat.ofDigitChars_replicate_zero, Nat.mul_zero]

/-- An exponent is written as a letter, a sign and its digits, with a zero in front of a single
one. -/
theorem renderExponent_eq (e : Int) : ∃ count, (renderExponent e).toList =
    'e' :: (if e < 0 then '-' else '+') ::
      (List.replicate count '0' ++ Nat.toDigits 10 e.natAbs) := by
  refine ⟨if (toString e.natAbs).length < 2 then 1 else 0, ?_⟩
  simp only [renderExponent, Nat.toString_eq_repr, String.toList_append]
  split <;> split <;> simp [Nat.toList_repr, List.replicate]

/-- A written exponent is read back. -/
theorem readExponent_renderExponent (e : Int) :
    readExponent (renderExponent e).toList = some (some e, []) := by
  obtain ⟨count, hprint⟩ := renderExponent_eq e
  have hread : readDigits (List.replicate count '0' ++ Nat.toDigits 10 e.natAbs) =
      some (List.replicate count '0' ++ Nat.toDigits 10 e.natAbs, []) := by
    have hdigits := (isDigits_toDigits e.natAbs).zeros_append count
    simpa using @readDigits_front _ [] hdigits (by simp)
  have hvalue : digitsValue (List.replicate count '0' ++ Nat.toDigits 10 e.natAbs) = e.natAbs := by
    rw [digitsValue_eq, ofDigitChars_zeros_append, Nat.ofDigitChars_ten_toDigits]
  rw [hprint, readExponent]
  by_cases he : e < 0
  · simp [he, readSignedDigits, hread, hvalue, abs_of_neg]
  · simp [he, readSignedDigits, hread, hvalue]
    omega

section Layouts

variable (hdigits : IsDigits digits) (hhead : digits.head? ≠ some '0')
include hdigits hhead

/-- Digits of a whole number, zeros up to the point, and one behind it. -/
theorem standsFor_whole (count : Nat)
    (hfit : Nat.ofDigitChars 10 digits 0 * 10 ^ (count + 1) ≤ NumberText.wordMax) :
    StandsFor (digits ++ List.replicate count '0' ++ ".0".toList)
      (Nat.ofDigitChars 10 digits 0 * 10 ^ (count + 1)) (-1) := by
  have hvalue : Nat.ofDigitChars 10 (digits ++ List.replicate count '0' ++ ['0']) 0 =
      Nat.ofDigitChars 10 digits 0 * 10 ^ (count + 1) := by
    rw [List.append_assoc, ← List.replicate_one, List.replicate_append_replicate,
      Nat.ofDigitChars_append, Nat.ofDigitChars_replicate_zero, Nat.mul_comm]
  have hstands := standsFor_fraction (hdigits.append_zeros count) (by simp [hhead, hdigits.1])
    isDigits_zero (hvalue ▸ hfit)
  rwa [hvalue] at hstands

/-- The point between two of the digits. -/
theorem standsFor_split (hfit : Nat.ofDigitChars 10 digits 0 ≤ NumberText.wordMax) {point : Nat}
    (hpos : 0 < point) (hpoint : point < digits.length) :
    StandsFor (digits.take point ++ '.' :: digits.drop point) (Nat.ofDigitChars 10 digits 0)
      (point - digits.length) := by
  have hstands := standsFor_fraction (hdigits.take hpos) (by simp [List.head?_take, hhead])
    (hdigits.drop hpoint) (by rwa [List.take_append_drop])
  rwa [List.take_append_drop, List.length_drop,
    (by omega : -((digits.length - point : Nat) : Int) = point - digits.length)] at hstands

omit hhead in
/-- The point before the digits, with zeros between them. -/
theorem standsFor_below (hfit : Nat.ofDigitChars 10 digits 0 ≤ NumberText.wordMax) (count : Nat) :
    StandsFor ("0.".toList ++ (List.replicate count '0' ++ digits)) (Nat.ofDigitChars 10 digits 0)
      (-count - digits.length) := by
  have hvalue : Nat.ofDigitChars 10 (['0'] ++ (List.replicate count '0' ++ digits)) 0 =
      Nat.ofDigitChars 10 digits 0 := ofDigitChars_zeros_append (count + 1) digits
  have hstands := standsFor_fraction isDigits_zero (fun _ => rfl) (hdigits.zeros_append count)
    (hvalue ▸ hfit)
  rwa [hvalue, List.length_append, List.length_replicate,
    (by omega : -((count + digits.length : Nat) : Int) = -count - digits.length)] at hstands

/-- The point behind the first digit, and an exponent. -/
theorem standsFor_scientific (hfit : Nat.ofDigitChars 10 digits 0 ≤ NumberText.wordMax) (e : Int) :
    StandsFor (digits.take 1 ++ ((if digits.length ≤ 1 then [] else '.' :: digits.drop 1) ++
      (renderExponent e).toList)) (Nat.ofDigitChars 10 digits 0) (e + 1 - digits.length) := by
  have hlength : 0 < digits.length := List.length_pos_of_ne_nil hdigits.1
  have hexponent := readExponent_renderExponent e
  have hstart : ∀ c ∈ (renderExponent e).toList.head?, c = 'e' := by
    obtain ⟨count, hprint⟩ := renderExponent_eq e
    simp [hprint]
  -- one digit has no fraction; more have the first one before the point
  by_cases hone : digits.length ≤ 1
  · have hstands := @standsFor_parts digits _ none _ hdigits (fun h => absurd h hhead) (by simp)
      hstart hexponent (.inr rfl) (by rwa [Option.getD_none, List.append_nil])
    rw [Option.getD_none, List.append_nil, Option.getD_some, List.length_nil,
      (by omega : e - (0 : Nat) = e + 1 - digits.length)] at hstands
    rwa [if_pos hone, List.take_of_length_le hone]
  · have hstands := @standsFor_parts (digits.take 1) _ (some (digits.drop 1)) _
      (hdigits.take Nat.one_pos) (by simp [List.head?_take, hhead])
      (by rintro _ ⟨⟩; exact hdigits.drop (by omega)) hstart hexponent (.inr rfl)
      (by rwa [Option.getD_some, List.take_append_drop])
    rw [Option.getD_some, List.take_append_drop, Option.getD_some, List.length_drop,
      (by omega : e - (digits.length - 1 : Nat) = e + 1 - digits.length)] at hstands
    rwa [if_neg hone]

end Layouts

/-- The layout of a decimal stands for the decimal; one of a whole number has a zero behind the
point, which counts as a digit. -/
theorem standsFor_renderDecimal {c : Decimal} (hpos : 0 < c.digits) (hfit : c.digits ≤ 10 ^ 17) :
    StandsFor (renderDecimal c).toList c.digits c.exponent ∨
      ∃ n ≤ 10 ^ 17, StandsFor (renderDecimal c).toList n (-1) := by
  obtain ⟨n, e⟩ := c
  have hdigits := isDigits_toDigits n
  have hvalue : Nat.ofDigitChars 10 (Nat.toDigits 10 n) 0 = n := Nat.ofDigitChars_ten_toDigits
  have hlt : n < 10 ^ (Nat.toDigits 10 n).length := Decimal.lt_ten_pow_digitCount n
  have hhead : (Nat.toDigits 10 n).head? ≠ some '0' := fun h =>
    hpos.ne' (head?_toDigits_eq_zero h)
  have hword : (10 : Nat) ^ 17 ≤ NumberText.wordMax := by decide
  simp only [renderDecimal] at hfit ⊢
  generalize Nat.toDigits 10 n = digits at hdigits hvalue hlt hhead ⊢
  subst hvalue
  -- the four forms, by where the point falls among the digits
  split
  case isTrue h =>
    have hle : Nat.ofDigitChars 10 digits 0 * 10 ^ (e.toNat + 1) ≤ 10 ^ 17 := by
      calc Nat.ofDigitChars 10 digits 0 * 10 ^ (e.toNat + 1)
          ≤ 10 ^ digits.length * 10 ^ (e.toNat + 1) := Nat.mul_le_mul_right _ hlt.le
        _ = 10 ^ (digits.length + (e.toNat + 1)) := (Nat.pow_add ..).symm
        _ ≤ 10 ^ 17 := Nat.pow_le_pow_right (by decide) (by omega)
    have hstands := standsFor_whole hdigits hhead e.toNat (hle.trans hword)
    exact .inr ⟨_, hle, by simpa using hstands⟩
  case isFalse hlarge =>
    left
    split
    case isTrue h =>
      have hstands := standsFor_split hdigits hhead (hfit.trans hword)
        (by omega : 0 < (digits.length + e).toNat) (by omega)
      rw [(by omega : ((digits.length + e).toNat : Int) - digits.length = e)] at hstands
      simpa using hstands
    case isFalse hsmall =>
      split
      case isTrue h =>
        have hstands := standsFor_below hdigits (hfit.trans hword) (-(digits.length + e)).toNat
        rw [(by omega : -((-(digits.length + e)).toNat : Int) - digits.length = e)] at hstands
        simpa using hstands
      case isFalse =>
        have hstands := standsFor_scientific hdigits hhead (hfit.trans hword)
          (digits.length + e - 1)
        rw [(by omega : (digits.length : Int) + e - 1 + 1 - digits.length = e)] at hstands
        by_cases hone : digits.length ≤ 1
        · simpa [hone] using hstands
        · simpa [hone] using hstands

/-- Every double is read as a number. -/
theorem Number.legible_double (d : Double) : (Number.double d).Legible := by
  have hlegible {cs : List Char} {n : Nat} {e : Int} (hstands : StandsFor cs n e)
      (hprint : d.render.toList = signChars d.negative ++ cs)
      (hsome : (ofDecimal d.negative n e).isSome) : (Number.double d).Legible := by
    obtain ⟨text, hread, hvalue⟩ := hstands d.negative
    obtain ⟨v, hv⟩ := Option.isSome_iff_exists.1 hsome
    exact ⟨text, .double v, by rw [Number.print, hprint, hread], by rw [hvalue, hv]; rfl⟩
  -- the sign comes first, so what follows it is read for both signs alike
  have hprint : d.render.toList = signChars d.negative ++
      (if d.isZero then "0.0" else renderDecimal d.shortest).toList := by
    rw [Double.render, String.toList_append, signChars]
    split <;> rfl
  by_cases hzero : d.isZero
  · rw [if_pos hzero] at hprint
    have hstands : StandsFor "0.0".toList 0 (-1) :=
      @standsFor_fraction ['0'] ['0'] isDigits_zero (fun _ => rfl) isDigits_zero (by decide)
    exact hlegible hstands hprint
      (ofDecimal_isSome_of_neg _ (lt_overflow_of_le (Nat.zero_le _)) (by decide) (by decide))
  · rw [if_neg hzero] at hprint
    have hd : 0 < d.mantissa := Nat.pos_of_ne_zero (by simpa [isZero] using hzero)
    obtain ⟨hpos, hfit, -, -⟩ := shortest_bounds hd
    rcases standsFor_renderDecimal hpos hfit with hstands | ⟨n, hn, hstands⟩
    · exact hlegible hstands hprint (ofDecimal_shortest_isSome hd _)
    · exact hlegible hstands hprint
        (ofDecimal_isSome_of_neg _ (lt_overflow_of_le hn) (by decide) (by decide))

end Json

end EntityCache
