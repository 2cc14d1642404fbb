import EntityCache.Decimal.Double

/-!
# The fewest digits that read back

`Double.shortest` gives a decimal `digits · 10 ^ exponent` with the fewest digits among the
decimals inside the interval of reals that round to a double, and of those the nearest one.  The
interval's ends belong to it exactly when the mantissa is even.  For every number of digits only
the two neighbours of the value on that decimal grid are tried: if a grid point lies in the
interval, so does one of them.

`Double.render` lays the digits out: positional while the decimal point falls into or near the
digits, scientific otherwise, always with a fraction or an exponent.
-/

namespace EntityCache

/-- A decimal `digits · 10 ^ exponent`. -/
structure Decimal where
  digits : Nat
  exponent : Int
deriving DecidableEq, Repr

namespace Decimal

/-- `n · 10 ^ e` as a quotient of natural numbers. -/
def scaledTen (n : Nat) (e : Int) : Nat × Nat :=
  match e with
  | .ofNat k => (n * Nat.pow 10 k, 1)
  | .negSucc k => (n, Nat.pow 10 (k + 1))

/-- Number of decimal digits of `n`, one for zero. -/
def digitCount (n : Nat) : Nat := (Nat.toDigits 10 n).length

/-- The `k` with `10 ^ k ≤ num / den < 10 ^ (k + 1)`, for a positive quotient. -/
def magnitude (num den : Nat) : Int :=
  if den ≤ num then (digitCount (num / den) : Int) - 1
  else
    let t := digitCount (den / num) - 1
    if den ≤ num * Nat.pow 10 t then -(t : Int) else -(t : Int) - 1

/-- Removes trailing zeros, at most `fuel` of them. -/
def strip : Nat → Decimal → Decimal
  | 0, d => d
  | fuel + 1, d =>
    if d.digits % 10 = 0 ∧ d.digits ≠ 0 then strip fuel ⟨d.digits / 10, d.exponent + 1⟩ else d

end Decimal

namespace Double

open Decimal

/-- Four times the mantissa, and its distances to the ends of the rounding interval on that scale,
below and above. -/
def interval (d : Double) : Nat × Nat × Nat :=
  let below := if d.mantissa = Nat.pow 2 52 ∧ -1074 < d.exponent then 1 else 2
  (4 * d.mantissa, 4 * d.mantissa - below, 4 * d.mantissa + 2)

/-- Whether the decimal `n · 10 ^ p` rounds to `d`. -/
def readsBack (d : Double) (n : Nat) (p : Int) : Bool :=
  let (_, lo, hi) := d.interval
  let (unit, unitDen) := scaled 1 (d.exponent - 2)
  let (x, xDen) := scaledTen n p
  let left := lo * unit * xDen
  let mid := x * unitDen
  let right := hi * unit * xDen
  if d.mantissa % 2 = 0 then left ≤ mid && mid ≤ right else left < mid && mid < right

/-- The neighbours of `d` on the grid of `count` digits that round to `d`, the nearer one first,
and of two equally near ones the even one. -/
def neighbours (d : Double) (count : Nat) : List Decimal :=
  let (num, den) := scaled d.mantissa d.exponent
  let p := magnitude num den - (count : Int) + 1
  let (ten, tenDen) := scaledTen 1 p
  let a := num * tenDen
  let b := den * ten
  let low := a / b
  let r := a % b
  let order := if 2 * r < b ∨ (2 * r = b ∧ low % 2 = 0) then [low, low + 1] else [low + 1, low]
  (order.filter fun n => d.readsBack n p).map fun n => ⟨n, p⟩

/-- The first grid of at most 17 digits, from `count` on, with a decimal that rounds to `d`. -/
def firstGrid (d : Double) : Nat → Nat → Decimal
  | 0, _ => ⟨d.mantissa, 0⟩
  | fuel + 1, count =>
    match d.neighbours count with
    | best :: _ => strip 17 best
    | [] => firstGrid d fuel (count + 1)

/-- The shortest decimal that rounds to a nonzero double; zero for zero. -/
def shortest (d : Double) : Decimal :=
  if d.isZero then ⟨0, 0⟩ else firstGrid d 17 1

/-- An exponent after its letter: a sign and at least two digits. -/
def renderExponent (e : Int) : String :=
  let digits := toString e.natAbs
  (if e < 0 then "e-" else "e+") ++ (if digits.length < 2 then "0" ++ digits else digits)

/-- The layout of a positive decimal. -/
def renderDecimal (d : Decimal) : String :=
  let ds := Nat.toDigits 10 d.digits
  let n : Int := ds.length
  let point := n + d.exponent
  if 0 ≤ d.exponent ∧ point ≤ 16 then
    String.ofList (ds ++ List.replicate d.exponent.toNat '0') ++ ".0"
  else if 0 < point ∧ point ≤ 16 then
    String.ofList (ds.take point.toNat) ++ "." ++ String.ofList (ds.drop point.toNat)
  else if -5 < point ∧ point ≤ 0 then
    "0." ++ String.ofList (List.replicate (-point).toNat '0' ++ ds)
  else
    let fraction := if ds.length ≤ 1 then "" else "." ++ String.ofList (ds.drop 1)
    String.ofList (ds.take 1) ++ fraction ++ renderExponent (point - 1)

/-- The shortest text that reads back, with a fraction or an exponent. -/
def render (d : Double) : String :=
  (if d.negative then "-" else "") ++
    (if d.isZero then "0.0" else renderDecimal d.shortest)

end Double

end EntityCache
