/-!
# Tokens of YAML text

Indentation is part of the structure of a YAML text, so some tokens stand for no character at all:
`blockSequenceStart`, `blockMappingStart` and `blockEnd` mark where a block begins and where the
indentation falls back, and `key` stands before a key that is recognised by the colon after it.

Before anything else the text is brought into one form: every line ends in `\n`, except for the line
and paragraph separators, which are breaks of their own.
-/

namespace EntityCache

namespace Yaml

/-- A token. -/
inductive Token where
  | version
  | tagHandle (handle expansion : String)
  | documentStart
  | documentEnd
  | flowSequenceStart
  | flowSequenceEnd
  | flowMappingStart
  | flowMappingEnd
  | flowEntry
  | blockSequenceStart
  | blockMappingStart
  | blockEnd
  | blockEntry
  | key
  | value
  | alias (name : String)
  | anchor (name : String)
  | tag (handle suffix : String)
  /-- A scalar; it is plain if it stands without quotes and is no block of lines. -/
  | scalar (text : String) (isPlain : Bool)
deriving DecidableEq, Repr

/-! ## Characters -/

/-- A blank inside a line. -/
def isBlank (c : Char) : Bool := c == ' ' || c == '\t'

/-- The end of a line. -/
def isBreak (c : Char) : Bool := c == '\n' || c == '\u2028' || c == '\u2029'

/-- Whether a blank, the end of a line or the end of the text comes next. -/
def blankNext : List Char → Bool
  | [] => true
  | c :: _ => isBlank c || isBreak c

/-- A character of a name. -/
def isNameChar (c : Char) : Bool := c.isAlphanum || c == '_' || c == '-'

/-- The characters that a text may hold. -/
def isPrintable (c : Char) : Bool :=
  c == '\t' || c == '\n' || c == '\r' || ('\x20' ≤ c && c ≤ '\x7e') || c == '\u0085' ||
    ('\u00a0' ≤ c && c ≤ '\ufffd') || 0x10000 ≤ c.toNat

/-- The text with one form of line ends. -/
def uniform : List Char → List Char
  | [] => []
  | '\r' :: '\n' :: rest => '\n' :: uniform rest
  | c :: rest => (if c == '\r' || c == '\u0085' then '\n' else c) :: uniform rest

/-- The text without a mark of byte order at its start. -/
def withoutMark : List Char → List Char
  | '\ufeff' :: rest => rest
  | text => text

/-! ## Places -/

/-- A place in a text, counted in characters from 0. -/
structure Place where
  line : Nat := 0
  column : Nat := 0
  index : Nat := 0
deriving DecidableEq, Repr

/-- The place after a character. -/
def Place.step (c : Char) (p : Place) : Place :=
  if isBreak c then ⟨p.line + 1, 0, p.index + 1⟩ else ⟨p.line, p.column + 1, p.index + 1⟩

/-- The place after several characters. -/
def Place.steps (cs : List Char) (p : Place) : Place := cs.foldl (fun p c => p.step c) p

/-- Whether the mark of a document's start or end comes next, given that a line begins here. -/
def markerNext : List Char → Bool
  | '-' :: '-' :: '-' :: rest => blankNext rest
  | '.' :: '.' :: '.' :: rest => blankNext rest
  | _ => false

end Yaml

end EntityCache
