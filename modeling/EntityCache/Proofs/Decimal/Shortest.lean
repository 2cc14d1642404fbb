import EntityCache.Decimal.Shortest
import EntityCache.Proofs.Decimal.Rounding

/-!
# The shortest decimal is within reach of the reader

The digits that are chosen for a double are at most 17, and their decimal lies in the interval that
rounds to the double.  That is enough for a reader that rounds more than once to find some double
(`ofDecimal_shortest_isSome`), if not the same one.  Only the two largest doubles are closer to
`overflow` than two roundings may carry, and for these the digits are computed.
-/

namespace EntityCache

open Decimal

namespace Decimal

variable {num den : Nat}

/-- The number that a decimal stands for. -/
def value (c : Decimal) : ℚ := c.digits * 10 ^ c.exponent

/-- A fraction scaled by a power of ten has a denominator. -/
theorem scaledTen_den_pos (n : Nat) (e : Int) : 0 < (scaledTen n e).2 := by
  cases e with
  | ofNat k => exact Nat.one_pos
  | negSucc k => exact Nat.pow_pos (by decide)

/-- Scaling by a power of ten makes no number zero. -/
theorem scaledTen_num_pos {n : Nat} (hn : 0 < n) (e : Int) : 0 < (scaledTen n e).1 := by
  cases e with
  | ofNat k => exact Nat.mul_pos hn (Nat.pow_pos (by decide))
  | negSucc k => exact hn

/-- The quotient of `scaledTen` is exact. -/
theorem scaledTen_eq (n : Nat) (e : Int) :
    ((scaledTen n e).1 : ℚ) / (scaledTen n e).2 = n * 10 ^ e := by
  cases e with
  | ofNat k => simp [scaledTen]
  | negSucc k => simp [scaledTen, zpow_negSucc, div_eq_mul_inv]

/-- Digits are counted far enough. -/
theorem lt_ten_pow_digitCount (n : Nat) : n < 10 ^ digitCount n :=
  (Nat.length_toDigits_le_iff (by decide) Nat.length_toDigits_pos).1 le_rfl

/-- Digits are not counted further than needed. -/
theorem ten_pow_le_of_lt_digitCount {n t : Nat} (hn : 0 < n) (ht : t < digitCount n) :
    10 ^ t ≤ n := by
  rcases Nat.eq_zero_or_pos t with rfl | hpos
  · exact hn
  · by_contra hlt
    have hcount := (Nat.length_toDigits_le_iff (by decide) hpos).2 (not_le.1 hlt)
    exact absurd ht (not_lt.2 hcount)

/-- The magnitude of a quotient is large enough. -/
theorem lt_ten_zpow_magnitude (hnum : 0 < num) (hden : 0 < den) :
    (num / den : ℚ) < 10 ^ (magnitude num den + 1) := by
  have hdenPos : (0 : ℚ) < den := Nat.cast_pos.2 hden
  simp only [magnitude]
  split
  case isTrue h =>
    have hlt : num < 10 ^ digitCount (num / den) * den :=
      (Nat.div_lt_iff_lt_mul hden).1 (lt_ten_pow_digitCount _)
    rw [sub_add_cancel, zpow_natCast, div_lt_iff₀ hdenPos]
    exact_mod_cast hlt
  case isFalse h =>
    have hcount : 0 < digitCount (den / num) := Nat.length_toDigits_pos
    set t := digitCount (den / num) - 1
    have hpow : 10 ^ t ≤ den / num :=
      ten_pow_le_of_lt_digitCount (Nat.div_pos (by omega) hnum) (by omega)
    have hle : 10 ^ t * num ≤ den := (Nat.le_div_iff_mul_le hnum).1 hpow
    have htPos : (0 : ℚ) < 10 ^ (t : Int) := by positivity
    split
    case isTrue =>
      have hle : (10 ^ (t : Int) * num : ℚ) ≤ den := by exact_mod_cast hle
      rw [div_lt_iff₀ hdenPos, zpow_add_one₀ (by norm_num), zpow_neg, mul_assoc, inv_mul_eq_div,
        lt_div_iff₀ htPos]
      linarith
    case isFalse hlt =>
      have hlt : (num * 10 ^ (t : Int) : ℚ) < den := by exact_mod_cast not_le.1 hlt
      rw [sub_add_cancel, div_lt_iff₀ hdenPos, zpow_neg, inv_mul_eq_div, lt_div_iff₀ htPos]
      exact hlt

/-- The magnitude of a quotient is not too small if the divisor is not too large. -/
theorem neg_le_magnitude {k : Nat} (hk : 0 < k) (hden : den < 10 ^ k) :
    -(k : Int) ≤ magnitude num den := by
  simp only [magnitude]
  split
  case isTrue => omega
  case isFalse =>
    have hcount : digitCount (den / num) ≤ k :=
      (Nat.length_toDigits_le_iff (by decide) hk).2
        (Nat.lt_of_le_of_lt (Nat.div_le_self _ _) hden)
    have hpos : 0 < digitCount (den / num) := Nat.length_toDigits_pos
    split <;> omega

end Decimal

namespace Double

variable {d : Double} {c : Decimal} {count : Nat}

/-- A decimal of at most 17 digits, not too far below zero, that rounds to `d`. -/
structure Candidate (d : Double) (c : Decimal) : Prop where
  pos : 0 < c.digits
  digits : c.digits ≤ 10 ^ 17
  exponent : -340 ≤ c.exponent
  value : c.value ≤ (4 * d.mantissa + 2) * 2 ^ (d.exponent - 2)

/-- What rounds to a double is positive and not above the end of its interval. -/
theorem readsBack_bounds {n : Nat} {p : Int} (hd : 0 < d.mantissa) (h : d.readsBack n p) :
    0 < n ∧ (n * 10 ^ p : ℚ) ≤ (4 * d.mantissa + 2) * 2 ^ (d.exponent - 2) := by
  obtain ⟨lo, hlo, hleft, hright⟩ : ∃ lo, 0 < lo ∧
      lo * (scaled 1 (d.exponent - 2)).1 * (scaledTen n p).2 ≤
        (scaledTen n p).1 * (scaled 1 (d.exponent - 2)).2 ∧
      (scaledTen n p).1 * (scaled 1 (d.exponent - 2)).2 ≤
        (4 * d.mantissa + 2) * (scaled 1 (d.exponent - 2)).1 * (scaledTen n p).2 := by
    refine ⟨4 * d.mantissa - if d.mantissa = 2 ^ 52 ∧ -1074 < d.exponent then 1 else 2, ?_, ?_⟩
    · split <;> omega
    · simp only [readsBack, interval] at h
      -- an interval without its ends lies within the one with them
      split at h <;> rw [Bool.and_eq_true] at h
      · exact ⟨of_decide_eq_true h.1, of_decide_eq_true h.2⟩
      · exact ⟨(of_decide_eq_true h.1).le, (of_decide_eq_true h.2).le⟩
  constructor
  · rcases Nat.eq_zero_or_pos n with rfl | hn
    · have hzero : (scaledTen 0 p).1 = 0 := by cases p <;> simp [scaledTen]
      have hpos := Nat.mul_pos (Nat.mul_pos hlo (scaled_num_pos Nat.one_pos (d.exponent - 2)))
        (scaledTen_den_pos 0 p)
      rw [hzero, Nat.zero_mul] at hleft
      omega
    · exact hn
  · rw [← scaledTen_eq, ← one_mul ((2 : ℚ) ^ (d.exponent - 2)), ← Nat.cast_one, ← scaled_eq,
      ← mul_div_assoc, div_le_div_iff₀ (Nat.cast_pos.2 (scaledTen_den_pos n p))
        (Nat.cast_pos.2 (scaled_den_pos 1 _))]
    exact_mod_cast hright

/-- A grid of `count` digits has no point below a double with more digits. -/
theorem low_lt_ten_pow (hd : 0 < d.mantissa) {p : Int}
    (hp : p = magnitude (scaled d.mantissa d.exponent).1 (scaled d.mantissa d.exponent).2 -
      (count : Int) + 1) :
    (scaled d.mantissa d.exponent).1 * (scaledTen 1 p).2 /
      ((scaled d.mantissa d.exponent).2 * (scaledTen 1 p).1) < 10 ^ count := by
  set num := (scaled d.mantissa d.exponent).1
  set den := (scaled d.mantissa d.exponent).2
  have hden : 0 < den := scaled_den_pos _ _
  have hlt := lt_ten_zpow_magnitude (scaled_num_pos hd d.exponent) hden
  -- the power is chosen so that the quotient keeps `count` digits
  have hpower : (10 : ℚ) ^ (magnitude num den + 1) =
      10 ^ count * (scaledTen 1 p).1 / (scaledTen 1 p).2 := by
    rw [mul_div_assoc, scaledTen_eq, Nat.cast_one, one_mul, ← zpow_natCast,
      ← zpow_add₀ (by norm_num), hp]
    congr 1
    omega
  rw [hpower, div_lt_div_iff₀ (Nat.cast_pos.2 hden) (Nat.cast_pos.2 (scaledTen_den_pos 1 p))] at hlt
  rw [Nat.div_lt_iff_lt_mul (Nat.mul_pos hden (scaledTen_num_pos Nat.one_pos p)),
    Nat.mul_comm den, ← Nat.mul_assoc]
  exact_mod_cast hlt

/-- The neighbours of a double with a number of digits are candidates for its text. -/
theorem candidate_of_mem_neighbours (hd : 0 < d.mantissa) (hmost : count ≤ 17)
    (h : c ∈ d.neighbours count) : Candidate d c := by
  simp only [neighbours, List.mem_map, List.mem_filter] at h
  obtain ⟨n, ⟨horder, hreads⟩, rfl⟩ := h
  obtain ⟨hpos, hvalue⟩ := readsBack_bounds hd hreads
  refine ⟨hpos, ?_, ?_, hvalue⟩
  · have hlow := @low_lt_ten_pow d count hd _ rfl
    have hpow : 10 ^ count ≤ 10 ^ 17 := Nat.pow_le_pow_right (by decide) hmost
    show n ≤ 10 ^ 17
    split at horder <;> simp only [List.mem_cons, List.not_mem_nil, or_false] at horder <;> omega
  · have hden : (scaled d.mantissa d.exponent).2 < 10 ^ 324 := by
      have hle := scaled_den_le (k := 1074) d.mantissa d.canonical.2.1
      exact lt_of_le_of_lt hle (by decide +kernel)
    have := @neg_le_magnitude (scaled d.mantissa d.exponent).1 _ _ (by decide) hden
    show -340 ≤ magnitude _ _ - (count : Int) + 1
    omega

/-- Trailing zeros are taken off without changing the number. -/
theorem Candidate.strip (h : Candidate d c) (fuel : Nat) : Candidate d (strip fuel c) := by
  -- a final zero moves into the exponent, and the value stays
  induction fuel generalizing c with
  | zero => exact h
  | succ fuel ih =>
    rw [Decimal.strip]
    split
    case isTrue hzero =>
      apply ih
      obtain ⟨hpos, hdigits, hexponent, hvalue⟩ := h
      refine ⟨?_, ?_, ?_, ?_⟩
      · show 0 < c.digits / 10
        omega
      · show c.digits / 10 ≤ 10 ^ 17
        omega
      · show -340 ≤ c.exponent + 1
        omega
      · have hten : (c.digits : ℚ) = (c.digits / 10 : Nat) * 10 := by
          exact_mod_cast (Nat.div_mul_cancel (Nat.dvd_of_mod_eq_zero hzero.1)).symm
        refine le_of_eq_of_le ?_ hvalue
        rw [Decimal.value, Decimal.value, hten, zpow_add_one₀ (by norm_num)]
        ring
    case isFalse => exact h

/-- The digits are those of a grid point, unless there is no grid left to try. -/
theorem firstGrid_cases (hd : 0 < d.mantissa) {fuel : Nat} (hfuel : count + fuel = 18) :
    d.firstGrid fuel count = ⟨d.mantissa, 0⟩ ∨ Candidate d (d.firstGrid fuel count) := by
  induction fuel generalizing count with
  | zero => exact .inl rfl
  | succ fuel ih =>
    rw [firstGrid]
    split
    case h_1 best rest hbest =>
      right
      apply Candidate.strip
      have hmost : count ≤ 17 := by omega
      exact candidate_of_mem_neighbours hd hmost (by rw [hbest]; exact List.mem_cons_self)
    case h_2 => exact ih (by omega)

/-- Of a double that is not zero there are between one and 17 digits, and their decimal is no larger
than the end of the interval, or than the mantissa. -/
theorem shortest_bounds (hd : 0 < d.mantissa) :
    0 < d.shortest.digits ∧ d.shortest.digits ≤ 10 ^ 17 ∧ -340 ≤ d.shortest.exponent ∧
      (d.shortest.value ≤ d.mantissa ∨
        d.shortest.value ≤ (4 * d.mantissa + 2) * 2 ^ (d.exponent - 2)) := by
  have hzero : d.isZero = false := by simpa [isZero] using hd.ne'
  rw [shortest, if_neg (by simp [hzero])]
  rcases firstGrid_cases hd (by omega : 1 + 17 = 18) with hgrid | hcandidate
  · have hmantissa : d.mantissa < 2 ^ 53 := d.canonical.1
    rw [hgrid]
    refine ⟨hd, ?_, by simp, .inl ?_⟩
    · show d.mantissa ≤ 10 ^ 17
      omega
    · simp [Decimal.value]
  · exact ⟨hcandidate.pos, hcandidate.digits, hcandidate.exponent, .inr hcandidate.value⟩

/-! ## Reading the digits -/

/-- Numbers of 17 digits are far below `overflow`. -/
theorem lt_overflow_of_le {n : Nat} (hn : n ≤ 10 ^ 17) : (n : ℚ) < overflow := by
  calc (n : ℚ) ≤ 10 ^ 17 := by exact_mod_cast hn
    _ < overflow := ten_pow_lt_overflow (by decide)

/-- The two largest doubles. -/
def Topmost (d : Double) : Prop := d.exponent = 971 ∧ 2 ^ 53 - 2 ≤ d.mantissa

/-- Of any double but the two largest the shortest decimal leaves a margin below `overflow`. -/
theorem value_shortest_le (hd : 0 < d.mantissa) (htop : ¬d.Topmost) :
    d.shortest.value ≤ overflow - 2 ^ 972 := by
  obtain ⟨hmantissa, -, hexponent, -⟩ := d.canonical
  have hroom (k : ℚ) (h : k ≤ 2 ^ 56 - 20) : k * 2 ^ (968 : Int) ≤ overflow - 2 ^ 972 := by
    have hpow : (2 : ℚ) ^ 970 = 2 ^ 2 * 2 ^ (968 : Int) := by rw [zpow_ofNat, ← pow_add]
    rw [overflow_sub_margin, hpow, ← mul_assoc]
    exact mul_le_mul_of_nonneg_right (by linarith) (by positivity)
  obtain ⟨-, -, -, hvalue | hvalue⟩ := shortest_bounds hd
  · have hm : (d.mantissa : ℚ) ≤ 2 ^ 53 := by exact_mod_cast hmantissa.le
    have hone : (1 : ℚ) ≤ 2 ^ (968 : Int) := one_le_zpow₀ one_le_two (by decide)
    calc d.shortest.value ≤ 2 ^ 53 := hvalue.trans hm
      _ ≤ 2 ^ 53 * 2 ^ (968 : Int) := le_mul_of_one_le_right (by norm_num) hone
      _ ≤ overflow - 2 ^ 972 := hroom _ (by norm_num)
  · refine hvalue.trans ?_
    -- at the largest exponent the mantissa has to stay away from its largest values
    by_cases he : d.exponent = 971
    · have hm : (d.mantissa : ℚ) ≤ 2 ^ 53 - 3 := by
        have : d.mantissa + 3 ≤ 2 ^ 53 := by
          have := mt (And.intro he) htop
          omega
        have : (d.mantissa + 3 : ℚ) ≤ 2 ^ 53 := by exact_mod_cast this
        linarith
      have hpow : (2 : ℚ) ^ (d.exponent - 2) = 2 * 2 ^ (968 : Int) := by
        rw [he, ← zpow_one_add₀ two_ne_zero]
        rfl
      rw [hpow, ← mul_assoc]
      exact hroom _ (by linarith)
    · have hm : (d.mantissa : ℚ) ≤ 2 ^ 53 := by exact_mod_cast hmantissa.le
      have hpow : (2 : ℚ) ^ (d.exponent - 2) ≤ 2 ^ (968 : Int) :=
        zpow_le_zpow_right₀ one_le_two (by omega)
      calc (4 * d.mantissa + 2 : ℚ) * 2 ^ (d.exponent - 2)
          ≤ (4 * d.mantissa + 2) * 2 ^ (968 : Int) :=
            mul_le_mul_of_nonneg_left hpow (by positivity)
        _ ≤ overflow - 2 ^ 972 := hroom _ (by linarith)

/-- The shortest decimals of the two largest doubles are read without overflow. -/
theorem ofDecimal_topmost (htop : d.Topmost) (negative : Bool) :
    (ofDecimal negative d.shortest.digits d.shortest.exponent).isSome := by
  obtain ⟨sign, mantissa, exponent, hcanonical⟩ := d
  obtain ⟨rfl, hmantissa⟩ : exponent = 971 ∧ 2 ^ 53 - 2 ≤ mantissa := htop
  have hcases : mantissa = 2 ^ 53 - 1 ∨ mantissa = 2 ^ 53 - 2 := by
    have hlt : mantissa < 2 ^ 53 := hcanonical.1
    omega
  rcases hcases with rfl | rfl
  · have hread : ∀ sign negative, (ofDecimal negative
        (shortest ⟨sign, 2 ^ 53 - 1, 971, by decide⟩).digits
        (shortest ⟨sign, 2 ^ 53 - 1, 971, by decide⟩).exponent).isSome := by decide +kernel
    exact hread sign negative
  · have hread : ∀ sign negative, (ofDecimal negative
        (shortest ⟨sign, 2 ^ 53 - 2, 971, by decide⟩).digits
        (shortest ⟨sign, 2 ^ 53 - 2, 971, by decide⟩).exponent).isSome := by decide +kernel
    exact hread sign negative

/-- The shortest decimal of a double is read as a double. -/
theorem ofDecimal_shortest_isSome (hd : 0 < d.mantissa) (negative : Bool) :
    (ofDecimal negative d.shortest.digits d.shortest.exponent).isSome := by
  by_cases htop : d.Topmost
  · exact ofDecimal_topmost htop negative
  · obtain ⟨hpos, hdigits, hexponent, -⟩ := shortest_bounds hd
    by_cases hneg : d.shortest.exponent < 0
    · exact ofDecimal_isSome_of_neg negative (lt_overflow_of_le hdigits) hneg (by omega)
    · obtain ⟨k, hk⟩ := Int.eq_ofNat_of_zero_le (not_lt.1 hneg)
      have hvalue := value_shortest_le hd htop
      rw [Decimal.value, hk, zpow_natCast] at hvalue
      rw [hk]
      exact ofDecimal_isSome_of_nonneg negative hpos hvalue

end Double

end EntityCache
