/-!
# Finite binary64 numbers

`Double` is a finite binary64 number as sign, mantissa and exponent, with the canonical choice of
exponent as a proof field, so equal numbers of one sign are equal values.  `Double.round` is the
nearest double of an exact quotient, ties to the even mantissa; products and quotients of doubles
are rounded from their exact value.  `Double.ofDecimal` reads a decimal the way the value format
does: the significand becomes a double first, and one rounded product or quotient with a power of
ten follows.
-/

namespace EntityCache

/-- A mantissa has at most 53 bits, and fewer only at the least exponent. -/
def Double.Canonical (mantissa : Nat) (exponent : Int) : Prop :=
  mantissa < Nat.pow 2 53 ∧ -1074 ≤ exponent ∧ exponent ≤ 971 ∧
    (Nat.pow 2 52 ≤ mantissa ∨ exponent = -1074)

instance (mantissa : Nat) (exponent : Int) : Decidable (Double.Canonical mantissa exponent) :=
  inferInstanceAs (Decidable (_ ∧ _ ∧ _ ∧ _))

/-- The number `±mantissa · 2 ^ exponent`. -/
structure Double where
  negative : Bool
  mantissa : Nat
  exponent : Int
  canonical : Double.Canonical mantissa exponent
deriving DecidableEq

namespace Double

/-- Zero with a sign. -/
def zero (negative : Bool) : Double := ⟨negative, 0, -1074, by decide⟩

def isZero (d : Double) : Bool := d.mantissa == 0

/-- `num / den`, rounded to the nearest integer, a half to the even one. -/
def divRound (num den : Nat) : Nat :=
  let q := num / den
  let r := num % den
  if 2 * r > den || (2 * r == den && q % 2 == 1) then q + 1 else q

/-- `n · 2 ^ e` as a quotient of natural numbers. -/
def scaled (n : Nat) (e : Int) : Nat × Nat :=
  match e with
  | .ofNat k => (n * Nat.pow 2 k, 1)
  | .negSucc k => (n, Nat.pow 2 (k + 1))

/-- The exponent at which `num / den` has a mantissa of 53 bits, or the least exponent. -/
def exponentOf (num den : Nat) : Int :=
  let k : Int := (Nat.log2 num : Int) - (Nat.log2 den : Int) - 52
  let (a, b) := scaled num (-k)
  max (-1074) (if a < Nat.pow 2 52 * (b * den) then k - 1 else k)

/-- The double nearest to `num / den`, ties to the even mantissa; `none` past the largest. -/
def round (negative : Bool) (num den : Nat) : Option Double :=
  if num = 0 then some (zero negative)
  else
    let e := exponentOf num den
    let (a, b) := scaled num (-e)
    let m := divRound a (b * den)
    let (m, e) := if m = Nat.pow 2 53 then (Nat.pow 2 52, e + 1) else (m, e)
    if h : Canonical m e then some ⟨negative, m, e, h⟩ else none

/-- The double nearest to a natural number. -/
def ofNat (negative : Bool) (n : Nat) : Option Double := round negative n 1

/-- The rounded product; the sign is that of the first factor. -/
def mul (x y : Double) : Option Double :=
  let (a, b) := scaled (x.mantissa * y.mantissa) (x.exponent + y.exponent)
  round x.negative a b

/-- The rounded quotient; the sign is that of the dividend. -/
def div (x y : Double) : Option Double :=
  let (a, b) := scaled x.mantissa (x.exponent - y.exponent)
  round x.negative a (b * y.mantissa)

/-- The largest power of ten whose double is used as a factor. -/
def powerLimit : Nat := 308

/-- `10 ^ k` as a double. -/
def powerOfTen (k : Nat) : Option Double := ofNat false (Nat.pow 10 k)

/-- `x · 10 ^ exponent`, one rounded step for every 308 powers of ten; `none` on overflow.  The
first argument counts the steps that are still allowed. -/
def scaleByTenIn : Nat → Double → Int → Option Double
  | 0, _, _ => none
  | steps + 1, x, exponent =>
    if exponent.natAbs ≤ powerLimit then
      (powerOfTen exponent.natAbs).bind fun power =>
        if 0 ≤ exponent then mul x power else div x power
    else if x.isZero then some x
    else if 0 ≤ exponent then none
    else ((powerOfTen powerLimit).bind (div x)).bind fun y => scaleByTenIn steps y (exponent + powerLimit)

/-- `x · 10 ^ exponent`; `none` on overflow.  Every step of a negative exponent divides by
`10 ^ 308`, so after four of them any double has become zero. -/
def scaleByTen (x : Double) (exponent : Int) : Option Double := scaleByTenIn 5 x exponent

/-- The double that the decimal `±significand · 10 ^ exponent` is read as; `none` on overflow. -/
def ofDecimal (negative : Bool) (significand : Nat) (exponent : Int) : Option Double :=
  (ofNat negative significand).bind (scaleByTen · exponent)

end Double

end EntityCache
