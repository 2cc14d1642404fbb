import EntityCache.Json.Basic

/-!
# JSON text as it was written

`Document` is the tree of a JSON text before anything is decided about it: a number keeps its
digits, a string with an unpaired surrogate escape is `none`, and the fields of an object stand in
the order of the text, repeated names included.  What a reader skips is only held to the grammar,
so the tree has no limit on its depth; `Document.value?` reads it as a value with the limits of
values: at most `nestingLimit` levels, numbers that fit a double, and paired surrogates.
-/

namespace EntityCache

/-- A JSON number as written: the digits before the point, those after it, and the exponent.
`none` stands for a part that was not written. -/
structure NumberText where
  negative : Bool
  whole : List Char
  fraction : Option (List Char)
  exponent : Option Int
deriving DecidableEq, Inhabited

namespace NumberText

/-- The largest value of an unsigned 64-bit word. -/
def wordMax : Nat := 0xffffffffffffffff

/-- Reads digits into a significand while it stays within an unsigned word.  Answers the
significand, the number of digits taken and the number of digits left. -/
def takeDigits (significand : Nat) : List Char → Nat × Nat × Nat
  | [] => (significand, 0, 0)
  | c :: rest =>
    let next := significand * 10 + (c.toNat - '0'.toNat)
    if next ≤ wordMax then
      let (s, taken, left) := takeDigits next rest
      (s, taken + 1, left)
    else (significand, 0, rest.length + 1)

/-- The number that the text stands for: an integer without fraction and exponent that fits a
signed or unsigned word stays one, except for `-0`; any other number is a double, and `none` when
it is too large for one. -/
def value? (n : NumberText) : Option Json.Number :=
  let (significand, _, left) := takeDigits 0 n.whole
  match n.fraction, n.exponent, left with
  | none, none, 0 =>
    if !n.negative then some (.integer significand)
    else if 0 < significand ∧ significand ≤ Nat.pow 2 63 then some (.integer (-significand))
    else (Double.ofDecimal true significand 0).map .double
  | fraction, exponent, left =>
    let (significand, taken, _) := takeDigits significand (fraction.getD [])
    (Double.ofDecimal n.negative significand ((left : Int) - taken + exponent.getD 0)).map .double

/-- The natural number that the text stands for, if it is written as one and fits an unsigned
word. -/
def natural? (n : NumberText) : Option Nat :=
  match n.value? with
  | some (.integer (.ofNat k)) => some k
  | _ => none

end NumberText

/-- JSON text as a tree. -/
inductive Document where
  | null
  | bool (value : Bool)
  | number (text : NumberText)
  | string (value : Option String)
  | array (items : List Document)
  | object (fields : List (Option String × Document))

namespace Document

instance : Inhabited Document := ⟨null⟩

/-- The levels of arrays and objects that a value may have. -/
def nestingLimit : Nat := 127

mutual

/-- The value of a document with at most `levels` levels of nesting. -/
def value? (levels : Nat) : Document → Option Json
  | null => some .null
  | bool b => some (.bool b)
  | number n => n.value?.map .number
  | string s => s.map .string
  | array items =>
    match levels with
    | 0 => none
    | levels + 1 => (items? levels items).map .array
  | object fields =>
    match levels with
    | 0 => none
    | levels + 1 => (fields? levels fields).map fun fs => .object (Json.ofFields fs)

/-- The values of a list of documents. -/
def items? (levels : Nat) : List Document → Option (List Json)
  | [] => some []
  | d :: rest =>
    match value? levels d with
    | none => none
    | some v => (items? levels rest).map (v :: ·)

/-- The names and values of a list of fields, in the order of the text. -/
def fields? (levels : Nat) : List (Option String × Document) → Option (List (String × Json))
  | [] => some []
  | (name, d) :: rest =>
    match name, value? levels d with
    | some name, some v => (fields? levels rest).map ((name, v) :: ·)
    | _, _ => none

end

end Document

end EntityCache
