import EntityCache.Decimal.Double
import Mathlib.Algebra.Order.Field.Power
import Mathlib.Data.Nat.Log
import Mathlib.Data.Rat.Cast.Order
import Mathlib.Tactic.Linarith
import Mathlib.Tactic.Positivity
import Mathlib.Tactic.Ring

/-!
# Rounding to a double

A double is seen through its `abs`, a rational number.  A quotient below `overflow`, the middle
between the largest double and the next power of two, is rounded to a double
(`round_isSome`), and from one on upwards rounding adds no more than one part in `2 ^ 53`
(`abs_round`).

The rest of the module follows the steps by which a decimal is read.  None of them leaves the range
of a double if the exponent is not positive, and for a positive exponent two roundings need a margin
of `2 ^ 972` below `overflow` (`ofDecimal_isSome_of_nonneg`).
-/

namespace EntityCache

namespace Double

variable {negative : Bool} {num den n : Nat} {x y : Double} {e : Int}

/-- The number that a double stands for, without its sign. -/
def abs (x : Double) : ℚ := x.mantissa * 2 ^ x.exponent

/-- Numbers from here on are rounded to no double. -/
def overflow : ℚ := (2 ^ 54 - 1) * 2 ^ 970

/-! ## Quotients of natural numbers -/

/-- A scaled fraction has a denominator. -/
theorem scaled_den_pos (n : Nat) (e : Int) : 0 < (scaled n e).2 := by
  cases e with
  | ofNat k => exact Nat.one_pos
  | negSucc k => exact Nat.two_pow_pos (k + 1)

/-- Scaling makes no number zero. -/
theorem scaled_num_pos (hn : 0 < n) (e : Int) : 0 < (scaled n e).1 := by
  cases e with
  | ofNat k => exact Nat.mul_pos hn (Nat.two_pow_pos k)
  | negSucc k => exact hn

/-- Scaling by a negative power multiplies the denominator by no more than that power. -/
theorem scaled_den_le {k : Nat} (n : Nat) (h : -(k : Int) ≤ e) : (scaled n e).2 ≤ 2 ^ k := by
  cases e with
  | ofNat j => exact Nat.two_pow_pos k
  | negSucc j => exact Nat.pow_le_pow_right (by decide) (by omega)

/-- The quotient of `scaled` is exact. -/
theorem scaled_eq (n : Nat) (e : Int) :
    ((scaled n e).1 : ℚ) / (scaled n e).2 = n * 2 ^ e := by
  cases e with
  | ofNat k => simp [scaled]
  | negSucc k => simp [scaled, zpow_negSucc, div_eq_mul_inv]

/-- Rounding moves a quotient by a half at most. -/
theorem divRound_bounds {a b : Nat} (hb : 0 < b) :
    2 * (divRound a b * b) ≤ 2 * a + b ∧ 2 * a ≤ 2 * (divRound a b * b) + b := by
  have hdiv := Nat.div_add_mod a b
  have hmod := Nat.mod_lt a hb
  rw [Nat.mul_comm] at hdiv
  simp only [divRound]
  split
  -- rounded up, the rest is at least a half; rounded down, at most
  case isTrue h =>
    have hup : b ≤ 2 * (a % b) := by
      simp only [Bool.or_eq_true, decide_eq_true_eq, Bool.and_eq_true, beq_iff_eq] at h
      omega
    rw [Nat.add_mul, Nat.one_mul]
    omega
  case isFalse h =>
    have hdown : 2 * (a % b) ≤ b := by
      simp only [Bool.or_eq_true, decide_eq_true_eq, not_or] at h
      omega
    omega

/-- Rounded division exceeds the quotient by at most a half. -/
theorem divRound_le_add_half {a b : Nat} (hb : 0 < b) : (divRound a b : ℚ) ≤ a / b + 1 / 2 := by
  have hbounds : (2 * (divRound a b * b) : ℚ) ≤ 2 * a + b := by
    exact_mod_cast (divRound_bounds hb).1
  have hle : (divRound a b - 1 / 2 : ℚ) ≤ a / b := by
    rw [le_div_iff₀ (Nat.cast_pos.2 hb)]
    linarith
  linarith

/-- Rounded division is below the quotient by at most a half. -/
theorem sub_half_le_divRound {a b : Nat} (hb : 0 < b) : (a / b - 1 / 2 : ℚ) ≤ divRound a b := by
  have hbounds : (2 * a : ℚ) ≤ 2 * (divRound a b * b) + b := by
    exact_mod_cast (divRound_bounds hb).2
  have hle : (a / b : ℚ) ≤ divRound a b + 1 / 2 := by
    rw [div_le_iff₀ (Nat.cast_pos.2 hb)]
    linarith
  linarith

/-- A positive quotient lies within a factor of two of what the lengths of its parts say. -/
theorem log2_quotient_bounds (hnum : 0 < num) (hden : 0 < den) :
    (2 : ℚ) ^ ((Nat.log2 num : Int) - Nat.log2 den - 1) < num / den ∧
      (num / den : ℚ) < 2 ^ ((Nat.log2 num : Int) - Nat.log2 den + 1) := by
  have hnumLow : (2 : ℚ) ^ (Nat.log2 num : Int) ≤ num := by
    exact_mod_cast Nat.log2_self_le hnum.ne'
  have hnumHigh : (num : ℚ) < 2 ^ ((Nat.log2 num : Int) + 1) := by
    exact_mod_cast Nat.lt_log2_self (n := num)
  have hdenLow : (2 : ℚ) ^ (Nat.log2 den : Int) ≤ den := by
    exact_mod_cast Nat.log2_self_le hden.ne'
  have hdenHigh : (den : ℚ) < 2 ^ ((Nat.log2 den : Int) + 1) := by
    exact_mod_cast Nat.lt_log2_self (n := den)
  have hdenPos : (0 : ℚ) < den := Nat.cast_pos.2 hden
  -- the larger denominator bounds the quotient below, the smaller one above
  constructor
  · rw [lt_div_iff₀ hdenPos]
    calc (2 : ℚ) ^ ((Nat.log2 num : Int) - Nat.log2 den - 1) * den
        < 2 ^ ((Nat.log2 num : Int) - Nat.log2 den - 1) * 2 ^ ((Nat.log2 den : Int) + 1) :=
          mul_lt_mul_of_pos_left hdenHigh (by positivity)
      _ = 2 ^ (Nat.log2 num : Int) := by
          rw [← zpow_add₀ two_ne_zero]
          congr 1
          ring
      _ ≤ num := hnumLow
  · rw [div_lt_iff₀ hdenPos]
    calc (num : ℚ) < 2 ^ ((Nat.log2 num : Int) + 1) := hnumHigh
      _ = 2 ^ ((Nat.log2 num : Int) - Nat.log2 den + 1) * 2 ^ (Nat.log2 den : Int) := by
          rw [← zpow_add₀ two_ne_zero]
          congr 1
          ring
      _ ≤ 2 ^ ((Nat.log2 num : Int) - Nat.log2 den + 1) * den :=
          mul_le_mul_of_nonneg_left hdenLow (by positivity)

/-- Whether a quotient has 53 bits in front of a place is compared without division. -/
theorem scaled_lt_iff (num : Nat) (hden : 0 < den) (k : Int) :
    (scaled num (-k)).1 < 2 ^ 52 * ((scaled num (-k)).2 * den) ↔
      (num / den : ℚ) < 2 ^ (k + 52) := by
  have hdenPos : (0 : ℚ) < den := Nat.cast_pos.2 hden
  have hb : (0 : ℚ) < (scaled num (-k)).2 := Nat.cast_pos.2 (scaled_den_pos num (-k))
  have hexact : ((scaled num (-k)).1 : ℚ) = num * 2 ^ (-k) * (scaled num (-k)).2 := by
    rw [← scaled_eq num (-k), div_mul_cancel₀ _ hb.ne']
  have hpower : (2 : ℚ) ^ (k + 52) * den = 2 ^ 52 * den * 2 ^ k := by
    rw [zpow_add₀ two_ne_zero, zpow_ofNat]
    ring
  have hbound : ((2 ^ 52 * ((scaled num (-k)).2 * den) : Nat) : ℚ) =
      2 ^ 52 * den * (scaled num (-k)).2 := by
    push_cast
    ring
  rw [← Nat.cast_lt (α := ℚ), hexact, hbound, mul_lt_mul_iff_left₀ hb, div_lt_iff₀ hdenPos,
    hpower, zpow_neg, ← div_eq_mul_inv, div_lt_iff₀ (by positivity : (0 : ℚ) < 2 ^ k)]

/-- At the exponent of a quotient its mantissa has 53 bits at most, and no fewer unless the exponent
is the least one. -/
theorem exponentOf_bounds (hnum : 0 < num) (hden : 0 < den) :
    -1074 ≤ exponentOf num den ∧ (num / den : ℚ) < 2 ^ (exponentOf num den + 53) ∧
      (exponentOf num den = -1074 ∨ (2 : ℚ) ^ (exponentOf num den + 52) ≤ num / den) := by
  obtain ⟨hlow, hhigh⟩ := log2_quotient_bounds hnum hden
  set k : Int := (Nat.log2 num : Int) - (Nat.log2 den : Int) - 52 with hk
  -- the exponent before the least one is enforced
  obtain ⟨e, he, hbelow, habove⟩ : ∃ e, exponentOf num den = max (-1074) e ∧
      (2 : ℚ) ^ (e + 52) ≤ num / den ∧ (num / den : ℚ) < 2 ^ (e + 53) := by
    by_cases hlt : (scaled num (-k)).1 < 2 ^ 52 * ((scaled num (-k)).2 * den)
    · refine ⟨k - 1, by simp only [exponentOf, Nat.pow_eq, ← hk, if_pos hlt], ?_, ?_⟩
      · refine le_of_eq_of_le ?_ hlow.le
        congr 1
        omega
      · convert (scaled_lt_iff num hden k).1 hlt using 2
        omega
    · refine ⟨k, by simp only [exponentOf, Nat.pow_eq, ← hk, if_neg hlt], ?_, ?_⟩
      · exact not_lt.1 (mt (scaled_lt_iff num hden k).2 hlt)
      · refine lt_of_lt_of_eq hhigh ?_
        congr 1
        omega
  rw [he]
  refine ⟨le_max_left _ _, habove.trans_le ?_, ?_⟩
  · exact zpow_le_zpow_right₀ one_le_two (by omega)
  · rcases max_choice (-1074) e with hmax | hmax
    · exact .inl hmax
    · rw [hmax]
      exact .inr hbelow

/-! ## Rounding -/

/-- The mantissa that a quotient is rounded to at its exponent; it may be `2 ^ 53`. -/
def mantissaOf (num den : Nat) : Nat :=
  divRound (scaled num (-exponentOf num den)).1 ((scaled num (-exponentOf num den)).2 * den)

/-- The rounded mantissa is within a half of the quotient, measured at its exponent. -/
theorem mantissaOf_near (num : Nat) (hden : 0 < den) :
    (mantissaOf num den : ℚ) ≤ num / den * 2 ^ (-exponentOf num den) + 1 / 2 ∧
      (num / den * 2 ^ (-exponentOf num den) - 1 / 2 : ℚ) ≤ mantissaOf num den := by
  set e := exponentOf num den with he
  have hb : 0 < (scaled num (-e)).2 * den := Nat.mul_pos (scaled_den_pos num (-e)) hden
  have hquotient : ((scaled num (-e)).1 / ((scaled num (-e)).2 * den : Nat) : ℚ) =
      num / den * 2 ^ (-e) := by
    rw [Nat.cast_mul, ← div_div, scaled_eq]
    ring
  rw [mantissaOf, ← he, ← hquotient]
  exact ⟨divRound_le_add_half hb, sub_half_le_divRound hb⟩

/-- What is left below `overflow` with a margin for two roundings. -/
theorem overflow_sub_margin : overflow - 2 ^ 972 = (2 ^ 54 - 5) * 2 ^ 970 := by
  have hpow : (2 : ℚ) ^ 972 = 2 ^ 2 * 2 ^ 970 := pow_add 2 2 970
  rw [overflow, hpow, ← sub_mul]
  norm_num

/-- The least number that is rounded to infinity is below the next power of two. -/
theorem overflow_lt : overflow < 2 ^ (1024 : Int) := by
  calc overflow < 2 ^ 54 * 2 ^ 970 := mul_lt_mul_of_pos_right (by norm_num) (by positivity)
    _ = 2 ^ (1024 : Int) := by rw [← pow_add, zpow_ofNat]

/-- Below the overflow, exponents are those of doubles. -/
theorem exponentOf_le (hnum : 0 < num) (hden : 0 < den) (hlt : (num / den : ℚ) < overflow) :
    exponentOf num den ≤ 971 := by
  obtain ⟨-, -, hleast | hbelow⟩ := exponentOf_bounds hnum hden
  · omega
  · have hpow : (2 : ℚ) ^ (exponentOf num den + 52) < 2 ^ (1024 : Int) :=
      hbelow.trans_lt (hlt.trans overflow_lt)
    have := (zpow_lt_zpow_iff_right₀ one_lt_two).1 hpow
    omega

/-- Below `overflow` exponent and mantissa are those of a double, once a mantissa of `2 ^ 53` has
been halved. -/
theorem mantissaOf_bounds (hnum : 0 < num) (hden : 0 < den) (hlt : (num / den : ℚ) < overflow) :
    mantissaOf num den ≤ 2 ^ 53 ∧ exponentOf num den ≤ 971 ∧
      (exponentOf num den = -1074 ∨ 2 ^ 52 ≤ mantissaOf num den) ∧
      (mantissaOf num den = 2 ^ 53 → exponentOf num den ≤ 970) := by
  have hle := exponentOf_le hnum hden hlt
  obtain ⟨-, habove, hbelow⟩ := exponentOf_bounds hnum hden
  obtain ⟨hup, hdown⟩ := mantissaOf_near num hden
  set e := exponentOf num den
  set m := mantissaOf num den
  set q : ℚ := num / den
  have hpos : (0 : ℚ) < 2 ^ (-e) := by positivity
  have hscale (k : Int) : (2 : ℚ) ^ (e + k) * 2 ^ (-e) = 2 ^ k := by
    rw [← zpow_add₀ two_ne_zero]
    congr 1
    ring
  refine ⟨?_, hle, ?_, ?_⟩
  · have hhigh : q * 2 ^ (-e) < 2 ^ 53 := by
      calc q * 2 ^ (-e) < 2 ^ (e + 53) * 2 ^ (-e) := mul_lt_mul_of_pos_right habove hpos
        _ = 2 ^ 53 := by rw [hscale, zpow_ofNat]
    have hm : (m : ℚ) < 2 ^ 53 + 1 := by linarith
    have : m < 2 ^ 53 + 1 := by exact_mod_cast hm
    omega
  · apply hbelow.imp_right
    intro hbelow
    have hlow : (2 : ℚ) ^ 52 ≤ q * 2 ^ (-e) := by
      calc (2 : ℚ) ^ 52 = 2 ^ (e + 52) * 2 ^ (-e) := by rw [hscale, zpow_ofNat]
        _ ≤ q * 2 ^ (-e) := mul_le_mul_of_nonneg_right hbelow hpos.le
    have hm : (2 : ℚ) ^ 52 < m + 1 := by linarith
    have : 2 ^ 52 < m + 1 := by exact_mod_cast hm
    omega
  · intro hm
    by_contra hgt
    have he : e = 971 := by omega
    -- at the largest exponent `overflow` is a half below `2 ^ 53`
    have hhalf : overflow * 2 ^ (-e) = 2 ^ 53 - 1 / 2 := by
      have hpow : (2 : ℚ) ^ 970 * 2 ^ (-971 : Int) = 1 / 2 := by
        rw [← zpow_natCast (2 : ℚ) 970, ← zpow_add₀ two_ne_zero]
        norm_num
      rw [he, overflow, mul_assoc, hpow]
      norm_num
    have hhigh : q * 2 ^ (-e) < 2 ^ 53 - 1 / 2 := hhalf ▸ mul_lt_mul_of_pos_right hlt hpos
    rw [hm] at hup
    push_cast at hup
    linarith

/-- A quotient is rounded to its mantissa at its exponent. -/
theorem round_of_lt (negative : Bool) (hnum : 0 < num) (hm : mantissaOf num den ≠ 2 ^ 53)
    (h : Canonical (mantissaOf num den) (exponentOf num den)) :
    round negative num den = some ⟨negative, _, _, h⟩ := by
  unfold mantissaOf at hm h
  simp only [round, Nat.pow_eq, if_neg hnum.ne', if_neg hm, dif_pos h]
  rfl

/-- A mantissa of `2 ^ 53` is halved. -/
theorem round_of_eq (negative : Bool) (hnum : 0 < num) (hm : mantissaOf num den = 2 ^ 53)
    (h : Canonical (2 ^ 52) (exponentOf num den + 1)) :
    round negative num den = some ⟨negative, _, _, h⟩ := by
  unfold mantissaOf at hm
  simp only [round, Nat.pow_eq, if_neg hnum.ne', if_pos hm, dif_pos h]

/-- Below `overflow` a positive quotient is rounded to a double, its mantissa at its exponent. -/
theorem round_eq_some (negative : Bool) (hnum : 0 < num) (hden : 0 < den)
    (hlt : (num / den : ℚ) < overflow) :
    ∃ x, round negative num den = some x ∧
      x.abs = mantissaOf num den * 2 ^ exponentOf num den := by
  obtain ⟨hle, hhigh, hlow, hcarry⟩ := mantissaOf_bounds hnum hden hlt
  have hleast := (exponentOf_bounds hnum hden).1
  by_cases hm : mantissaOf num den = 2 ^ 53
  · have hcanonical : Canonical (2 ^ 52) (exponentOf num den + 1) := by
      have := hcarry hm
      exact ⟨by decide, by omega, by omega, .inl le_rfl⟩
    refine ⟨_, round_of_eq negative hnum hm hcanonical, ?_⟩
    rw [abs, hm, zpow_add₀ two_ne_zero]
    push_cast
    ring
  · have hcanonical : Canonical (mantissaOf num den) (exponentOf num den) :=
      ⟨lt_of_le_of_ne hle hm, hleast, hhigh, hlow.symm⟩
    exact ⟨_, round_of_lt negative hnum hm hcanonical, rfl⟩

/-- Below the overflow, every fraction is rounded to a double. -/
theorem round_isSome (negative : Bool) (hden : 0 < den) (hlt : (num / den : ℚ) < overflow) :
    (round negative num den).isSome := by
  rcases Nat.eq_zero_or_pos num with rfl | hnum
  · rw [round, if_pos rfl]
    rfl
  · obtain ⟨x, hx, -⟩ := round_eq_some negative hnum hden hlt
    rw [hx]
    rfl

/-- From one on, rounding adds one part in `2 ^ 53` at most, and does not come below one. -/
theorem abs_round (hden : 0 < den) (hone : (1 : ℚ) ≤ num / den)
    (hx : round negative num den = some x) (hlt : (num / den : ℚ) < overflow) :
    1 ≤ x.abs ∧ x.abs ≤ num / den * (1 + 2 ^ (-53 : Int)) := by
  have hnum : 0 < num := by
    rcases Nat.eq_zero_or_pos num with rfl | hnum
    · norm_num at hone
    · exact hnum
  obtain ⟨-, habove, hbelow⟩ := exponentOf_bounds hnum hden
  obtain ⟨-, -, hmantissa, -⟩ := mantissaOf_bounds hnum hden hlt
  obtain ⟨hup, -⟩ := mantissaOf_near num hden
  obtain ⟨y, hy, hvalue⟩ := round_eq_some negative hnum hden hlt
  obtain rfl : y = x := Option.some.inj (hy.symm.trans hx)
  rw [hvalue]
  set e := exponentOf num den
  set m := mantissaOf num den
  set q : ℚ := num / den
  have hpos : (0 : ℚ) < 2 ^ e := by positivity
  -- the exponent is far from the least one
  have he : -53 < e := by
    have hpow : (2 : ℚ) ^ (0 : Int) < 2 ^ (e + 53) := by simpa using hone.trans_lt habove
    have := (zpow_lt_zpow_iff_right₀ one_lt_two).1 hpow
    omega
  constructor
  · have hm : (2 ^ 52 : ℚ) ≤ m := by exact_mod_cast hmantissa.resolve_left (by omega)
    have hexp : (2 : ℚ) ^ (-52 : Int) ≤ 2 ^ e := zpow_le_zpow_right₀ one_le_two (by omega)
    calc (1 : ℚ) = 2 ^ 52 * 2 ^ (-52 : Int) := by norm_num
      _ ≤ m * 2 ^ e := mul_le_mul hm hexp (by positivity) (by positivity)
  · have hhalf : (2 : ℚ) ^ e / 2 ≤ q * 2 ^ (-53 : Int) := by
      have hq : (2 : ℚ) ^ (e + 52) ≤ q := hbelow.resolve_left (by omega)
      calc (2 : ℚ) ^ e / 2 = 2 ^ (e + 52) * 2 ^ (-53 : Int) := by
            rw [← zpow_add₀ two_ne_zero, div_eq_mul_inv, ← zpow_sub_one₀ two_ne_zero]
            congr 1
            ring
        _ ≤ q * 2 ^ (-53 : Int) := mul_le_mul_of_nonneg_right hq (by positivity)
    calc (m : ℚ) * 2 ^ e ≤ (q * 2 ^ (-e) + 1 / 2) * 2 ^ e := mul_le_mul_of_nonneg_right hup hpos.le
      _ = q + 2 ^ e / 2 := by
        rw [add_mul, mul_assoc, ← zpow_add₀ two_ne_zero, neg_add_cancel, zpow_zero]
        ring
      _ ≤ q * (1 + 2 ^ (-53 : Int)) := by linarith

/-! ## The steps of reading a decimal -/

/-- Every double is below `overflow`. -/
theorem abs_lt_overflow (x : Double) : x.abs < overflow := by
  obtain ⟨hmantissa, -, hexponent, -⟩ := x.canonical
  have hm : (x.mantissa : ℚ) ≤ 2 ^ 53 - 1 := by
    have : x.mantissa + 1 ≤ 2 ^ 53 := hmantissa
    have : (x.mantissa + 1 : ℚ) ≤ 2 ^ 53 := by exact_mod_cast this
    linarith
  have he : (2 : ℚ) ^ x.exponent ≤ 2 * 2 ^ 970 := by
    calc (2 : ℚ) ^ x.exponent ≤ 2 ^ (971 : Int) := zpow_le_zpow_right₀ one_le_two hexponent
      _ = 2 * 2 ^ 970 := by rw [← pow_succ', zpow_ofNat]
  calc x.abs ≤ (2 ^ 53 - 1) * (2 * 2 ^ 970) :=
        mul_le_mul hm he (by positivity) (by norm_num)
    _ = (2 ^ 54 - 2) * 2 ^ 970 := by
        rw [← mul_assoc]
        norm_num
    _ < overflow := mul_lt_mul_of_pos_right (by norm_num) (by positivity)

/-- Magnitudes are not negative. -/
theorem abs_nonneg (x : Double) : 0 ≤ x.abs := by
  rw [abs]
  positivity

/-- A product below `overflow` is a double. -/
theorem mul_isSome (h : x.abs * y.abs < overflow) : (x.mul y).isSome := by
  have hround : x.mul y = round x.negative (scaled (x.mantissa * y.mantissa)
      (x.exponent + y.exponent)).1 (scaled (x.mantissa * y.mantissa) (x.exponent + y.exponent)).2 :=
    rfl
  rw [hround]
  apply round_isSome _ (scaled_den_pos _ _)
  rw [scaled_eq, Nat.cast_mul, zpow_add₀ two_ne_zero, mul_mul_mul_comm]
  exact h

/-- A quotient by a double from one on is a double. -/
theorem div_isSome (x : Double) (h : 1 ≤ y.abs) : (x.div y).isSome := by
  have hy : 0 < y.mantissa := by
    rcases Nat.eq_zero_or_pos y.mantissa with hzero | hpos
    · norm_num [abs, hzero] at h
    · exact hpos
  have hround : x.div y = round x.negative (scaled x.mantissa (x.exponent - y.exponent)).1
      ((scaled x.mantissa (x.exponent - y.exponent)).2 * y.mantissa) := rfl
  rw [hround]
  apply round_isSome _ (Nat.mul_pos (scaled_den_pos _ _) hy)
  rw [Nat.cast_mul, ← div_div, scaled_eq, zpow_sub₀ two_ne_zero]
  calc (x.mantissa * (2 ^ x.exponent / 2 ^ y.exponent) / y.mantissa : ℚ)
      = x.abs / y.abs := by
        rw [abs, abs]
        ring
    _ ≤ x.abs := div_le_self x.abs_nonneg h
    _ < overflow := x.abs_lt_overflow

/-- A positive integer below `overflow` is a double that is not far above it. -/
theorem ofNat_eq_some (negative : Bool) (hn : 0 < n) (hlt : (n : ℚ) < overflow) :
    ∃ x, ofNat negative n = some x ∧ 1 ≤ x.abs ∧ x.abs ≤ n * (1 + 2 ^ (-53 : Int)) := by
  have hquotient : (n / (1 : Nat) : ℚ) = n := by rw [Nat.cast_one, div_one]
  obtain ⟨x, hx⟩ := Option.isSome_iff_exists.1
    (round_isSome negative Nat.one_pos (hquotient.symm ▸ hlt))
  have hone : (1 : ℚ) ≤ n := by exact_mod_cast hn
  have hbounds := abs_round Nat.one_pos (hquotient.symm ▸ hone) hx (hquotient.symm ▸ hlt)
  rw [hquotient] at hbounds
  exact ⟨x, hx, hbounds⟩

/-- The powers of ten that are ever computed do not overflow. -/
theorem ten_pow_lt_overflow {k : Nat} (hk : k ≤ powerLimit) : (10 : ℚ) ^ k < overflow := by
  have hmost : 10 ^ powerLimit + 2 ^ 970 < 2 ^ 54 * 2 ^ 970 := by decide +kernel
  have hmost : (10 ^ powerLimit + 2 ^ 970 : ℚ) < 2 ^ 54 * 2 ^ 970 := by exact_mod_cast hmost
  calc (10 : ℚ) ^ k ≤ 10 ^ powerLimit := pow_le_pow_right₀ (by norm_num) hk
    _ < 2 ^ 54 * 2 ^ 970 - 2 ^ 970 := lt_sub_iff_add_lt.2 hmost
    _ = overflow := by rw [overflow, sub_mul, one_mul]

/-- The powers of ten that are used as factors are doubles. -/
theorem powerOfTen_eq_some {k : Nat} (hk : k ≤ powerLimit) :
    ∃ x, powerOfTen k = some x ∧ 1 ≤ x.abs ∧
      x.abs ≤ 10 ^ k * (1 + 2 ^ (-53 : Int)) := by
  have hlt : ((10 ^ k : Nat) : ℚ) < overflow := by exact_mod_cast ten_pow_lt_overflow hk
  obtain ⟨x, hx, hone, hle⟩ := ofNat_eq_some false (Nat.pow_pos (by decide)) hlt
  exact ⟨x, hx, hone, by exact_mod_cast hle⟩

/-- Dividing by powers of ten does not overflow, and comes to an end within the steps that are
allowed. -/
theorem scaleByTenIn_isSome {steps : Nat} (x : Double) (hneg : e < 0)
    (hsteps : -(308 * steps : Int) ≤ e) : (scaleByTenIn steps x e).isSome := by
  -- each step takes one largest power of ten off the exponent
  induction steps generalizing x e with
  | zero => omega
  | succ steps ih =>
    rw [scaleByTenIn]
    by_cases hnear : e.natAbs ≤ powerLimit
    · obtain ⟨power, hpower, hone, -⟩ := powerOfTen_eq_some hnear
      rw [if_pos hnear, hpower, Option.bind_some, if_neg (by omega)]
      exact div_isSome x hone
    · obtain ⟨power, hpower, hone, -⟩ := powerOfTen_eq_some (le_refl powerLimit)
      obtain ⟨y, hy⟩ := Option.isSome_iff_exists.1 (div_isSome x hone)
      rw [if_neg hnear]
      split
      · rfl
      · rw [if_neg (by omega), hpower, Option.bind_some, hy, Option.bind_some]
        have hlimit : (powerLimit : Int) = 308 := rfl
        apply ih <;> omega

/-- Multiplying by a power of ten needs room for two roundings. -/
theorem scaleByTen_isSome {k : Nat} (hk : k ≤ powerLimit)
    (h : x.abs * (10 ^ k * (1 + 2 ^ (-53 : Int))) < overflow) :
    (scaleByTen x k).isSome := by
  obtain ⟨power, hpower, -, hle⟩ := powerOfTen_eq_some hk
  rw [scaleByTen, scaleByTenIn, Int.natAbs_natCast, if_pos hk, hpower, Option.bind_some,
    if_pos (Int.natCast_nonneg k)]
  apply mul_isSome
  exact (mul_le_mul_of_nonneg_left hle x.abs_nonneg).trans_lt h

/-- A decimal with a negative exponent, not too far below zero, is read as a double. -/
theorem ofDecimal_isSome_of_neg (negative : Bool) (hn : (n : ℚ) < overflow) (hneg : e < 0)
    (hleast : -1540 ≤ e) : (ofDecimal negative n e).isSome := by
  have hsome : (ofNat negative n).isSome := by
    apply round_isSome negative Nat.one_pos
    rwa [Nat.cast_one, div_one]
  obtain ⟨x, hx⟩ := Option.isSome_iff_exists.1 hsome
  rw [ofDecimal, hx, Option.bind_some, scaleByTen]
  exact scaleByTenIn_isSome x hneg (by omega)

/-- A decimal without a fraction is read as a double if it leaves a margin of `2 ^ 972` below
`overflow`. -/
theorem ofDecimal_isSome_of_nonneg (negative : Bool) {k : Nat} (hn : 0 < n)
    (h : (n * 10 ^ k : ℚ) ≤ overflow - 2 ^ 972) : (ofDecimal negative n k).isSome := by
  have hone : (1 : ℚ) ≤ n := by exact_mod_cast hn
  have hlt : (n * 10 ^ k : ℚ) < overflow := h.trans_lt (sub_lt_self _ (by positivity))
  have hk : k ≤ powerLimit := by
    by_contra hgt
    have hmost : 2 ^ 54 * 2 ^ 970 ≤ 10 ^ (powerLimit + 1) := by decide +kernel
    have hmost : (2 ^ 54 * 2 ^ 970 : ℚ) ≤ 10 ^ (powerLimit + 1) := by exact_mod_cast hmost
    have hpow : (10 : ℚ) ^ (powerLimit + 1) ≤ 10 ^ k :=
      pow_le_pow_right₀ (by norm_num) (not_le.1 hgt)
    have hmul : (10 : ℚ) ^ k ≤ n * 10 ^ k := le_mul_of_one_le_left (by positivity) hone
    have hover : overflow < 2 ^ 54 * 2 ^ 970 :=
      mul_lt_mul_of_pos_right (by norm_num) (by positivity)
    exact absurd (hmost.trans (hpow.trans hmul)) (not_le.2 (hlt.trans hover))
  obtain ⟨x, hx, -, hle⟩ := ofNat_eq_some negative hn
    ((le_mul_of_one_le_right (by positivity) (one_le_pow₀ (by norm_num))).trans_lt hlt)
  rw [ofDecimal, hx, Option.bind_some]
  apply scaleByTen_isSome hk
  -- two roundings are together less than the margin
  have hmargin : (overflow - 2 ^ 972) * ((1 + 2 ^ (-53 : Int)) * (1 + 2 ^ (-53 : Int))) <
      overflow := by
    rw [overflow_sub_margin, mul_right_comm]
    exact mul_lt_mul_of_pos_right (by norm_num) (by positivity)
  calc x.abs * (10 ^ k * (1 + 2 ^ (-53 : Int)))
      ≤ n * (1 + 2 ^ (-53 : Int)) * (10 ^ k * (1 + 2 ^ (-53 : Int))) :=
        mul_le_mul_of_nonneg_right hle (by positivity)
    _ = n * 10 ^ k * ((1 + 2 ^ (-53 : Int)) * (1 + 2 ^ (-53 : Int))) := by ring
    _ ≤ (overflow - 2 ^ 972) * ((1 + 2 ^ (-53 : Int)) * (1 + 2 ^ (-53 : Int))) :=
        mul_le_mul_of_nonneg_right h (by positivity)
    _ < overflow := hmargin

end Double

end EntityCache
