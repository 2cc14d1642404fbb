import EntityCache.Decimal.Range
import EntityCache.Json.Reader
import EntityCache.Setting.Basic

/-!
# Words that stand for values

`Setting.ofPlain` decides what a scalar without quotes stands for: nothing, a truth value, an
integer in one of four bases, a number, or otherwise the text itself.  Digits that begin with a
superfluous zero are text, and so is a number too large for a double.
-/

namespace EntityCache

namespace Setting

/-- The words for nothing. -/
def nullWords : List String := ["", "~", "null", "Null", "NULL"]

/-- The words for the truth values. -/
def truthWords : List (String × Bool) :=
  [("true", true), ("True", true), ("TRUE", true), ("false", false), ("False", false), ("FALSE", false)]

/-- The words for numbers that are no finite doubles. -/
def specialNumbers : List String :=
  [".inf", ".Inf", ".INF", "+.inf", "+.Inf", "+.INF", "-.inf", "-.Inf", "-.INF", ".nan", ".NaN", ".NAN"]

/-- The value of digits in a base, the empty text having none. -/
def digits? (base : Nat) (digits : List Char) : Option Nat :=
  if digits.isEmpty then none
  else
    digits.foldlM
      (fun n c =>
        match Json.hexValue? c with
        | some d => if d < base then some (n * base + d) else none
        | none => none)
      0

/-- A word without its sign, and whether it is negative. -/
def unsigned : List Char → Bool × List Char
  | '+' :: rest => (false, rest)
  | '-' :: rest => (true, rest)
  | cs => (false, cs)

/-- Whether digits begin with a superfluous zero. -/
def hasLeadingZero (digits : List Char) : Bool :=
  1 < digits.length && digits.head? == some '0' && digits.all Char.isDigit

/-- The natural number of a word without sign. -/
def magnitude? : List Char → Option Nat
  | '0' :: 'x' :: digits => digits? 16 digits
  | '0' :: 'o' :: digits => digits? 8 digits
  | '0' :: 'b' :: digits => digits? 2 digits
  | digits => if hasLeadingZero digits then none else digits? 10 digits

/-- The integer of a word. -/
def integer? (word : List Char) : Option Int :=
  let (negative, digits) := unsigned word
  (magnitude? digits).map fun n => if negative then -(n : Int) else n

/-- A decimal as it is written: its digits as one number, the power of ten that they count, and how
many digits there are. -/
structure DecimalWord where
  significand : Nat
  exponent : Int
  digits : Nat
deriving DecidableEq, Repr

/-- The exponent of ten after the digits of a decimal; without one it is 0. -/
def exponent? : List Char → Option Int
  | [] => some 0
  | e :: cs =>
    if e == 'e' || e == 'E' then
      let (negative, digits) := unsigned cs
      (digits? 10 digits).map fun n => if negative then -(n : Int) else n
    else none

/-- The decimal of a word: digits with a point somewhere, and an exponent; point and exponent may be
missing. -/
def decimal? (word : List Char) : Option DecimalWord :=
  let cs := (unsigned word).2
  let whole := cs.takeWhile Char.isDigit
  let cs := cs.drop whole.length
  let (fraction, cs) :=
    match cs with
    | '.' :: cs =>
      let fraction := cs.takeWhile Char.isDigit
      (fraction, cs.drop fraction.length)
    | cs => ([], cs)
  match digits? 10 (whole ++ fraction), exponent? cs with
  | some significand, some exponent =>
    some ⟨significand, exponent - fraction.length, whole.length + fraction.length⟩
  | _, _ => none

/-- Whether a word is a decimal in the range of a double. -/
def isReal (word : List Char) : Bool :=
  (decimal? word).any fun d => Decimal.isFinite d.significand d.exponent d.digits

/-- What a word stands for. -/
def ofPlain (word : String) : Setting :=
  let cs := word.toList
  if nullWords.contains word then null
  else
    match truthWords.lookup word with
    | some b => bool b
    | none =>
      match integer? cs with
      | some n => integer n
      | none =>
        if hasLeadingZero (unsigned cs).2 then text word
        else if specialNumbers.contains word || isReal cs then real
        else text word

end Setting

end EntityCache
