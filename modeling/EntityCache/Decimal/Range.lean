import EntityCache.Decimal.Double

/-!
# Decimals in the range of a double

`Decimal.isFinite` says whether a decimal is rounded to a finite double, without computing the
double: it has to lie below the middle between the largest double and the next power of two.
-/

namespace EntityCache

namespace Decimal

/-- The bound below which a number is rounded to a finite double: `2 ^ 1024 - 2 ^ 970`. -/
def finiteBound : Nat := Nat.pow 2 1024 - Nat.pow 2 970

/-- An exponent of ten at which every positive integer is out of range. -/
def hugeExponent : Nat := 400

/-- Whether `significand · 10 ^ exponent` is rounded to a finite double; `digits` is at least the
number of digits of the significand. -/
def isFinite (significand : Nat) (exponent : Int) (digits : Nat) : Bool :=
  if significand = 0 then true
  else if exponent > hugeExponent then false
  else if exponent < 0 then
    if exponent + digits < 0 then true
    else significand < finiteBound * Nat.pow 10 exponent.natAbs
  else significand * Nat.pow 10 exponent.natAbs < finiteBound

end Decimal

end EntityCache
