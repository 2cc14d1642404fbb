import EntityCache.Json.Basic

/-!
# Compact JSON text

`Json.print` writes a value without any blank, fields in the order of their list.  Text in quotes
escapes the quote, the backslash and the control characters below `U+0020`, the five with a short
form by that form; every other character stands for itself.
-/

namespace EntityCache

namespace Json

/-- A hexadecimal digit in lower case. -/
def hexDigit (n : Nat) : Char := (Nat.digitChar (n % 16))

/-- How a character is written inside quotes. -/
def escapeChar (c : Char) : List Char :=
  match c with
  | '"' => ['\\', '"']
  | '\\' => ['\\', '\\']
  | '\x08' => ['\\', 'b']
  | '\x0c' => ['\\', 'f']
  | '\n' => ['\\', 'n']
  | '\r' => ['\\', 'r']
  | '\t' => ['\\', 't']
  | c => if c.toNat < 0x20 then ['\\', 'u', '0', '0', hexDigit (c.toNat / 16), hexDigit c.toNat] else [c]

/-- A string in quotes. -/
def printString (s : String) : List Char :=
  '"' :: (s.toList.flatMap escapeChar ++ ['"'])

/-- A number: the digits of an integer, the shortest text of a double. -/
def Number.print : Number → List Char
  | .integer n => (toString n).toList
  | .double d => d.render.toList

mutual

/-- The characters of a value. -/
def print : Json → List Char
  | null => "null".toList
  | bool true => "true".toList
  | bool false => "false".toList
  | number n => n.print
  | string s => printString s
  | array items => '[' :: (printItems items ++ [']'])
  | object fields => '{' :: (printFields fields ++ ['}'])

/-- The characters of the items of an array, a comma between two of them. -/
def printItems : List Json → List Char
  | [] => []
  | [v] => print v
  | v :: w :: rest => print v ++ ',' :: printItems (w :: rest)

/-- The characters of the fields of an object, a comma between two of them. -/
def printFields : List (String × Json) → List Char
  | [] => []
  | [(k, v)] => printString k ++ ':' :: print v
  | (k, v) :: field :: rest =>
    printString k ++ ':' :: (print v ++ ',' :: printFields (field :: rest))

end

/-- The compact text of a value. -/
def render (v : Json) : String := String.ofList v.print

end Json

end EntityCache
