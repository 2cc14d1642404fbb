import EntityCache.Setting.Plain

/-!
# Settings in environment variables

A variable whose name begins with `FLEETCACHE_`, in any letter case, holds one setting: the rest of
its name in lower case is the path of the setting, its parts separated by two underscores or by a
point.  A name with an empty part is ignored.  Of two variables for one setting the later one in the
environment counts.

The value of a variable is read by `Setting.ofInline`: as a truth value, a number, a list in square
brackets, a map in braces, a text in double quotes or a character in single ones, and as its own
text if it is none of these.
-/

namespace EntityCache

namespace Setting

/-! ## Values on one line -/

/-- The blanks of the characters at large. -/
def isSpace (c : Char) : Bool :=
  ('\t' ≤ c && c ≤ '\r') || c == ' ' || c == '\u0085' || c == '\u00a0' || c == '\u1680' ||
    ('\u2000' ≤ c && c ≤ '\u200a') || c == '\u2028' || c == '\u2029' || c == '\u202f' ||
    c == '\u205f' || c == '\u3000'

/-- A text without the blanks around it. -/
def trim (cs : List Char) : List Char :=
  ((cs.dropWhile isSpace).reverse.dropWhile isSpace).reverse

/-- The blanks between the parts of a value. -/
def isGap (c : Char) : Bool := c == ' ' || c == '\t' || c == '\n' || c == '\r' || c == '\x0c'

/-- A text without the blanks before it. -/
def skipGap (cs : List Char) : List Char := cs.dropWhile isGap

/-- A character that ends a word. -/
def isSeparator (c : Char) : Bool := c == ',' || c == '{' || c == '}' || c == '[' || c == ']'

/-- A character of a name in a map. -/
def isNameChar (c : Char) : Bool := c.isAlphanum || c == '_' || c == '-'

/-- What a word stands for: a number if it has a point, an integer of one machine word, or
itself. -/
def ofWord (word : List Char) : Setting :=
  let kept := text (String.ofList word)
  if word.contains '.' && (decimal? word).isSome then real
  else
    let (negative, digits) := unsigned word
    match digits? 10 digits with
    | some n =>
      if !digits.all Char.isDigit then kept
      else if negative then if n ≤ Nat.pow 2 63 then integer (-(n : Int)) else kept
      else if n < Nat.pow 2 64 then integer n
      else kept
    | none => kept

/-- The characters of a text up to its closing quote, escapes as they are written, and the text
after the quote. -/
def quoted? : List Char → Option (List Char × List Char)
  | [] => none
  | '"' :: rest => some ([], rest)
  | '\\' :: c :: rest => (quoted? rest).map fun (inner, left) => ('\\' :: c :: inner, left)
  | c :: rest => (quoted? rest).map fun (inner, left) => (c :: inner, left)

/-- The character of a number, if it is one. -/
def charOf? (n : Nat) : Option Char := if n.isValidChar then some (Char.ofNat n) else none

/-- A text with its escapes resolved; while an escape by number is read, `pending` holds the count
of its digits that are still to come and its value so far. -/
def unescape? (pending : Option (Nat × Nat)) : List Char → Option (List Char)
  | [] => if pending.isSome then none else some []
  | c :: rest =>
    match pending with
    | some (left, value) =>
      match Json.hexValue? c with
      | none => none
      | some digit =>
        let value := value * 16 + digit
        if left ≤ 1 then
          match charOf? value, unescape? none rest with
          | some c, some cs => some (c :: cs)
          | _, _ => none
        else unescape? (some (left - 1, value)) rest
    | none =>
      if c == '\\' then
        match rest with
        | [] => none
        | e :: rest =>
          match e with
          | 'u' => unescape? (some (4, 0)) rest
          | 'U' => unescape? (some (8, 0)) rest
          | 'b' => (unescape? none rest).map ('\x08' :: ·)
          | 'f' => (unescape? none rest).map ('\x0c' :: ·)
          | 'n' => (unescape? none rest).map ('\n' :: ·)
          | 'r' => (unescape? none rest).map ('\r' :: ·)
          | 't' => (unescape? none rest).map ('\t' :: ·)
          | '"' => (unescape? none rest).map ('"' :: ·)
          | '\\' => (unescape? none rest).map ('\\' :: ·)
          | _ => none
      else if c == '\t' || ('\x20' ≤ c && c != '\x7f') then (unescape? none rest).map (c :: ·)
      else none

/-- A text in quotes, after the opening one, and the text after it. -/
def readQuoted (cs : List Char) : Option (String × List Char) :=
  match quoted? cs with
  | none => none
  | some (inner, rest) => (unescape? none inner).map fun cs => (String.ofList cs, rest)

/-- The name of a field, and the text after it. -/
def readName (cs : List Char) : Option (String × List Char) :=
  match cs with
  | '"' :: rest => readQuoted rest
  | _ =>
    let name := cs.takeWhile isNameChar
    if name.isEmpty then none else some (String.ofList name, cs.drop name.length)

mutual

/-- Reads a value with the blanks around it; the first argument bounds the depth of the calls. -/
def readValue : (depth : Nat) → List Char → Option (Setting × List Char)
  | 0, _ => none
  | depth + 1, cs => do
    let (value, rest) ←
      match skipGap cs with
      | 't' :: 'r' :: 'u' :: 'e' :: rest => some (bool true, rest)
      | 'f' :: 'a' :: 'l' :: 's' :: 'e' :: rest => some (bool false, rest)
      | '{' :: rest => (readFields depth rest).map fun (fields, rest) => (ofFields fields, rest)
      | '[' :: rest => (readItems depth rest).map fun (items, rest) => (list items, rest)
      | '"' :: rest => (readQuoted rest).map fun (s, rest) => (text s, rest)
      | '\'' :: c :: '\'' :: rest => some (text (String.ofList [c]), rest)
      | '\'' :: _ => none
      | cs =>
        let word := cs.takeWhile fun c => !isSeparator c
        some (ofWord (trim word), cs.drop word.length)
    return (value, skipGap rest)

/-- Reads the items of a list up to its end. -/
def readItems : (depth : Nat) → List Char → Option (List Setting × List Char)
  | 0, _ => none
  | _ + 1, ']' :: rest => some ([], rest)
  | depth + 1, cs => do
    let (item, rest) ← readValue depth cs
    match rest with
    | ',' :: rest =>
      let (items, rest) ← readItems depth rest
      return (item :: items, rest)
    | ']' :: rest => return ([item], rest)
    | _ => none

/-- Reads the fields of a map up to its end. -/
def readFields : (depth : Nat) → List Char → Option (List (String × Setting) × List Char)
  | 0, _ => none
  | _ + 1, '}' :: rest => some ([], rest)
  | depth + 1, cs => do
    let (name, rest) ← readName (skipGap cs)
    match skipGap rest with
    | '=' :: rest =>
      let (value, rest) ← readValue depth rest
      match rest with
      | ',' :: rest =>
        let (fields, rest) ← readFields depth rest
        return ((name, value) :: fields, rest)
      | '}' :: rest => return ([(name, value)], rest)
      | _ => none
    | _ => none

end

/-- What the value of a variable stands for. -/
def ofInline (value : String) : Setting :=
  let cs := trim value.toList
  match readValue (2 * cs.length + 2) cs with
  | some (setting, []) => setting
  | _ => text (String.ofList cs)

/-! ## Variables -/

/-- What the name of a variable begins with, in lower case. -/
def variablePrefix : List Char := "fleetcache_".toList

/-- The parts of a path. -/
def pathParts : List Char → List (List Char)
  | [] => [[]]
  | '_' :: '_' :: rest => [] :: pathParts rest
  | '.' :: rest => [] :: pathParts rest
  | c :: rest =>
    match pathParts rest with
    | part :: parts => (c :: part) :: parts
    | [] => [[c]]

/-- The path of the setting that a variable holds. -/
def variablePath? (name : String) : Option (List String) :=
  let name := (trim name.toList).map Char.toLower
  if variablePrefix.isPrefixOf name then
    let parts := pathParts (trim (name.drop variablePrefix.length))
    if parts.any List.isEmpty then none else some (parts.map String.ofList)
  else none

/-- The settings that variables hold, given by name and value in the order of the environment. -/
def ofEnvironment (environment : List (String × String)) : Setting :=
  overlayAll (environment.filterMap fun (name, value) =>
    (variablePath? name).map fun path => nest path (ofInline value))

end Setting

end EntityCache
