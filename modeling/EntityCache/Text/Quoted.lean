import EntityCache.Text.Escaped

/-!
# Quoted text

Error messages quote the text they complain about: between double quotes, with the quote, the
backslash and the common control characters written as two characters, and every character of
`escapedRanges` written as its hexadecimal code point in braces.
-/

namespace EntityCache.Text

/-- Lower-case hexadecimal digits of `n`, without leading zeros. -/
def hexDigits (n : Nat) : String := String.ofList (Nat.toDigits 16 n)

/-- How one character of a quoted text is written. -/
def quoteChar (c : Char) : String :=
  match c with
  | '"' => "\\\""
  | '\\' => "\\\\"
  | '\n' => "\\n"
  | '\r' => "\\r"
  | '\t' => "\\t"
  | '\x00' => "\\0"
  | c => if isEscaped c then "\\u\x7b" ++ hexDigits c.toNat ++ "\x7d" else c.toString

/-- `s` between double quotes. -/
def quote (s : String) : String :=
  "\"" ++ String.join (s.toList.map quoteChar) ++ "\""

end EntityCache.Text
