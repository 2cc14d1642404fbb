import EntityCache.Json.Document

/-!
# Reading JSON text

`Document.read?` accepts exactly the texts of the JSON grammar, blanks around the document
included, and gives the tree as it was written.  Escapes of a string are read as 16-bit units
first and paired afterwards, so a string with an unpaired surrogate is still a string of the
grammar, of value `none`.
-/

namespace EntityCache

namespace Json

/-- The four blanks of the grammar. -/
def isBlank (c : Char) : Bool := c == ' ' || c == '\n' || c == '\t' || c == '\r'

/-- The text after its leading blanks. -/
def skipBlanks (cs : List Char) : List Char := cs.dropWhile isBlank

/-- The value of a hexadecimal digit in either case. -/
def hexValue? (c : Char) : Option Nat :=
  if c.isDigit then some (c.toNat - '0'.toNat)
  else if 'a' ≤ c ∧ c ≤ 'f' then some (c.toNat - 'a'.toNat + 10)
  else if 'A' ≤ c ∧ c ≤ 'F' then some (c.toNat - 'A'.toNat + 10)
  else none

/-- The number that four hexadecimal digits stand for. -/
def hexUnit? (a b c d : Char) : Option Nat :=
  match hexValue? a, hexValue? b, hexValue? c, hexValue? d with
  | some a, some b, some c, some d => some (((a * 16 + b) * 16 + c) * 16 + d)
  | _, _, _, _ => none

/-- The character of a short escape. -/
def shortEscape? (c : Char) : Option Char :=
  match c with
  | '"' => some '"'
  | '\\' => some '\\'
  | '/' => some '/'
  | 'b' => some '\x08'
  | 'f' => some '\x0c'
  | 'n' => some '\n'
  | 'r' => some '\r'
  | 't' => some '\t'
  | _ => none

/-- A piece of a string: a character, or the 16-bit unit of a numeric escape. -/
inductive Piece where
  | char (c : Char)
  | unit (n : Nat)

/-- The pieces of a string after its opening quote, and the text after its closing quote. -/
def readPieces : List Char → Option (List Piece × List Char)
  | [] => none
  | '"' :: rest => some ([], rest)
  | '\\' :: 'u' :: a :: b :: c :: d :: rest =>
    match hexUnit? a b c d with
    | none => none
    | some n => (readPieces rest).map fun (pieces, left) => (.unit n :: pieces, left)
  | '\\' :: e :: rest =>
    match shortEscape? e with
    | none => none
    | some c => (readPieces rest).map fun (pieces, left) => (.char c :: pieces, left)
  | c :: rest =>
    if c == '\\' || c.toNat < 0x20 then none
    else (readPieces rest).map fun (pieces, left) => (.char c :: pieces, left)

/-- The characters of the pieces; `none` if a surrogate has no partner. -/
def joinPieces : List Piece → Option (List Char)
  | [] => some []
  | .char c :: rest => (joinPieces rest).map (c :: ·)
  | .unit n :: rest =>
    if n < 0xD800 ∨ 0xE000 ≤ n then (joinPieces rest).map (Char.ofNat n :: ·)
    else
      match rest with
      | .unit m :: rest =>
        if n < 0xDC00 ∧ 0xDC00 ≤ m ∧ m < 0xE000 then
          (joinPieces rest).map (Char.ofNat (0x10000 + (n - 0xD800) * 0x400 + (m - 0xDC00)) :: ·)
        else none
      | _ => none

/-- A string after its opening quote, and the text after it. -/
def readString (cs : List Char) : Option (Option String × List Char) :=
  (readPieces cs).map fun (pieces, rest) => ((joinPieces pieces).map String.ofList, rest)

/-- The number that decimal digits stand for. -/
def digitsValue (digits : List Char) : Nat :=
  digits.foldl (fun n c => n * 10 + (c.toNat - '0'.toNat)) 0

/-- The digits at the front of the text, at least one, and the text after them. -/
def readDigits (cs : List Char) : Option (List Char × List Char) :=
  match cs.takeWhile Char.isDigit with
  | [] => none
  | digits => some (digits, cs.dropWhile Char.isDigit)

/-- The digits before the point: a zero on its own, or digits that do not start with one. -/
def readWhole : List Char → Option (List Char × List Char)
  | '0' :: rest => if (rest.head?.any Char.isDigit) then none else some (['0'], rest)
  | cs => readDigits cs

/-- The fraction of a number, if the text goes on with one; `none` if a point has no digits. -/
def readFraction : List Char → Option (Option (List Char) × List Char)
  | '.' :: rest => (readDigits rest).map fun (digits, rest) => (some digits, rest)
  | cs => some (none, cs)

/-- The exponent after its letter. -/
def readSignedDigits : List Char → Option (Int × List Char)
  | '-' :: rest => (readDigits rest).map fun (digits, rest) => (-(digitsValue digits : Int), rest)
  | '+' :: rest => (readDigits rest).map fun (digits, rest) => ((digitsValue digits : Int), rest)
  | cs => (readDigits cs).map fun (digits, rest) => ((digitsValue digits : Int), rest)

/-- The exponent of a number, if the text goes on with one; `none` if the letter has no digits. -/
def readExponent : List Char → Option (Option Int × List Char)
  | c :: rest =>
    if c == 'e' || c == 'E' then (readSignedDigits rest).map fun (e, rest) => (some e, rest)
    else some (none, c :: rest)
  | [] => some (none, [])

/-- A number, and the text after it. -/
def readNumber (cs : List Char) : Option (NumberText × List Char) :=
  let negative := cs.head? == some '-'
  let digits := if negative then cs.tail else cs
  match readWhole digits with
  | none => none
  | some (whole, rest) =>
    match readFraction rest with
    | none => none
    | some (fraction, rest) =>
      (readExponent rest).map fun (exponent, rest) => (⟨negative, whole, fraction, exponent⟩, rest)

/-- The text after `word`, if it starts with it. -/
def afterWord? : List Char → List Char → Option (List Char)
  | [], cs => some cs
  | _ :: _, [] => none
  | w :: word, c :: cs => if w = c then afterWord? word cs else none

end Json

namespace Document

open Json

mutual

/-- A document at the front of the text, which does not start with a blank, and the text after
it. -/
def readValue : Nat → List Char → Option (Document × List Char)
  | 0, _ => none
  | fuel + 1, cs =>
    match cs with
    | [] => none
    | '"' :: rest => (readString rest).map fun (s, rest) => (.string s, rest)
    | '[' :: rest =>
      match skipBlanks rest with
      | ']' :: rest => some (.array [], rest)
      | rest => (readItems fuel rest).map fun (items, rest) => (.array items, rest)
    | '{' :: rest =>
      match skipBlanks rest with
      | '}' :: rest => some (.object [], rest)
      | rest => (readFields fuel rest).map fun (fields, rest) => (.object fields, rest)
    | 'n' :: rest => (afterWord? "ull".toList rest).map fun rest => (.null, rest)
    | 't' :: rest => (afterWord? "rue".toList rest).map fun rest => (.bool true, rest)
    | 'f' :: rest => (afterWord? "alse".toList rest).map fun rest => (.bool false, rest)
    | cs => (readNumber cs).map fun (n, rest) => (.number n, rest)

/-- The items of an array up to its closing bracket, at least one. -/
def readItems : Nat → List Char → Option (List Document × List Char)
  | 0, _ => none
  | fuel + 1, cs =>
    match readValue fuel cs with
    | none => none
    | some (item, rest) =>
      match skipBlanks rest with
      | ']' :: rest => some ([item], rest)
      | ',' :: rest =>
        (readItems fuel (skipBlanks rest)).map fun (items, rest) => (item :: items, rest)
      | _ => none

/-- The fields of an object up to its closing brace, at least one. -/
def readFields : Nat → List Char → Option (List (Option String × Document) × List Char)
  | 0, _ => none
  | fuel + 1, cs =>
    match cs with
    | '"' :: rest =>
      match readString rest with
      | none => none
      | some (name, rest) =>
        match skipBlanks rest with
        | ':' :: rest =>
          match readValue fuel (skipBlanks rest) with
          | none => none
          | some (value, rest) =>
            match skipBlanks rest with
            | '}' :: rest => some ([(name, value)], rest)
            | ',' :: rest =>
              (readFields fuel (skipBlanks rest)).map fun (fields, rest) =>
                ((name, value) :: fields, rest)
            | _ => none
        | _ => none
    | _ => none

end

/-- The document that the characters are the text of. -/
def readChars? (cs : List Char) : Option Document :=
  match readValue (2 * cs.length + 2) (skipBlanks cs) with
  | some (d, rest) => if skipBlanks rest = [] then some d else none
  | none => none

/-- The document that a text holds. -/
def read? (text : String) : Option Document := readChars? text.toList

end Document

/-- The value that a text holds, within the limits of values. -/
def Json.read? (text : String) : Option Json :=
  (Document.read? text).bind (Document.value? Document.nestingLimit)

end EntityCache
