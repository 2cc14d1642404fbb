/-!
# Network addresses

An `Address` has 32 or 128 bits.  `Address.parse?` reads the usual texts: four decimal numbers with
points, or groups of hexadecimal digits with colons, of which `::` leaves out at least one and the
last two may be written as four decimal numbers.  `Address.render` gives the canonical text: the
longest run of two or more zero groups is left out, the first one of several equally long, and an
address that stands for a 32-bit one is written with decimal numbers.
-/

namespace EntityCache

/-- A network address. -/
inductive Address where
  | v4 (bits : BitVec 32)
  | v6 (bits : BitVec 128)
deriving DecidableEq, Repr

namespace Address

/-! ## Reading -/

/-- A number below 256 in decimal digits without a leading zero. -/
def octet? (text : String) : Option Nat :=
  let digits := text.toList
  if digits = [] ∨ 3 < digits.length ∨ !digits.all Char.isDigit then none
  else if 1 < digits.length ∧ digits.head? = some '0' then none
  else
    let n := digits.foldl (fun n c => n * 10 + (c.toNat - '0'.toNat)) 0
    if n < 256 then some n else none

/-- The value of a hexadecimal digit. -/
def nibble? (c : Char) : Option Nat :=
  if c.isDigit then some (c.toNat - '0'.toNat)
  else if 'a' ≤ c ∧ c ≤ 'f' then some (c.toNat - 'a'.toNat + 10)
  else if 'A' ≤ c ∧ c ≤ 'F' then some (c.toNat - 'A'.toNat + 10)
  else none

/-- A group of one to four hexadecimal digits. -/
def group? (text : String) : Option Nat :=
  if text = "" ∨ 4 < text.length then none
  else text.toList.foldlM (fun n c => (nibble? c).map (n * 16 + ·)) 0

/-- The number of the parts of an address, `base` values each. -/
def join (base : Nat) (parts : List Nat) : Nat := parts.foldl (fun n part => n * base + part) 0

/-- Four decimal numbers. -/
def octets? (text : String) : Option (List Nat) :=
  match (text.splitOn ".").mapM octet? with
  | some [a, b, c, d] => some [a, b, c, d]
  | _ => none

/-- The groups of texts, the last of which may be four decimal numbers where `tail` allows it. -/
def groups? (tail : Bool) : List String → Option (List Nat)
  | [] => some []
  | [last] =>
    match octets? last with
    | some octets =>
      if tail then some [join 256 (octets.take 2), join 256 (octets.drop 2)] else none
    | none => (group? last).map ([·])
  | text :: rest =>
    match group? text with
    | none => none
    | some n => (groups? tail rest).map (n :: ·)

/-- The groups of one side of a `::`; there may be none. -/
def side? (tail : Bool) (text : String) : Option (List Nat) :=
  if text = "" then some [] else groups? tail (text.splitOn ":")

/-- The eight groups of a long address. -/
def longGroups? (text : String) : Option (List Nat) :=
  match text.splitOn "::" with
  | [whole] =>
    match side? true whole with
    | some groups => if groups.length = 8 then some groups else none
    | none => none
  | [head, tail] =>
    match side? false head, side? true tail with
    | some head, some tail =>
      if head.length + tail.length ≤ 7 then
        some (head ++ List.replicate (8 - head.length - tail.length) 0 ++ tail)
      else none
    | _, _ => none
  | _ => none

/-- The address of a text. -/
def parse? (text : String) : Option Address :=
  match octets? text with
  | some octets => some (.v4 (BitVec.ofNat 32 (join 256 octets)))
  | none => (longGroups? text).map fun groups => .v6 (BitVec.ofNat 128 (join 65536 groups))

/-! ## Writing -/

/-- `count` parts of a number, `base` values each, the highest first. -/
def split (base : Nat) : Nat → Nat → List Nat
  | 0, _ => []
  | count + 1, n => split base count (n / base) ++ [n % base]

/-- Four decimal numbers with points. -/
def renderOctets (n : Nat) : String := ".".intercalate ((split 256 4 n).map toString)

/-- A group in hexadecimal digits. -/
def renderGroup (n : Nat) : String := String.ofList (Nat.toDigits 16 n)

/-- Groups with colons. -/
def renderGroups (groups : List Nat) : String := ":".intercalate (groups.map renderGroup)

/-- The length of the run of zeros at the front. -/
def zeros (groups : List Nat) : Nat := (groups.takeWhile (· == 0)).length

/-- The first longest run of zeros, as its place and its length. -/
def longestRun (groups : List Nat) : Nat × Nat :=
  (List.range groups.length).foldl
    (fun best i =>
      let n := zeros (groups.drop i)
      if best.2 < n then (i, n) else best)
    (0, 0)

/-- The canonical text of eight groups. -/
def renderLong (groups : List Nat) : String :=
  if groups.take 6 = [0, 0, 0, 0, 0, 0xffff] then
    "::ffff:" ++ renderOctets (join 65536 (groups.drop 6))
  else
    let (place, length) := longestRun groups
    if 1 < length then
      renderGroups (groups.take place) ++ "::" ++ renderGroups (groups.drop (place + length))
    else renderGroups groups

/-- The canonical text of an address. -/
def render : Address → String
  | v4 bits => renderOctets bits.toNat
  | v6 bits => renderLong (split 65536 8 bits.toNat)

end Address

end EntityCache
