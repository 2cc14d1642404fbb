import EntityCache.Error

/-!
# Globs over ids

In a glob `*` stands for any run of characters, `?` for one character, and every other character
for itself; neither wildcard takes a line feed, and the whole id has to match.

`Glob.accepts` reads the id once.  It carries a row with one mark per place between two tokens,
set when the characters read so far can be taken by the tokens before that place.  Places at the
front that can no longer be left are dropped together with their tokens, and a row may be shorter
than the tokens: the marks that are missing are not set.

A glob is compiled to a regular expression, and the library that compiles it refuses a program that
takes more than ten mebibytes, its default (`Glob.sizeLimit`).  How many bytes a program takes is a
matter of the library.  `Token.weight` and `Glob.size` count them as its refusals show them: it
accepts 10485 question marks, 10082 stars or 327674 bytes of literal characters, and not one more.
-/

namespace EntityCache

namespace Glob

/-- A piece of a glob. -/
inductive Token where
  /-- Any run of characters other than line feeds. -/
  | run
  /-- One character other than a line feed. -/
  | one
  /-- This character. -/
  | exactly (c : Char)
deriving DecidableEq, Repr

/-- The token of a character of the pattern. -/
def Token.ofChar : Char → Token
  | '*' => run
  | '?' => one
  | c => exactly c

/-- Whether the token takes the character and is done. -/
def Token.takes (c : Char) : Token → Bool
  | run => false
  | one => c != '\n'
  | exactly x => x == c

/-- Whether the token takes the character and may take more. -/
def Token.stays (c : Char) : Token → Bool
  | run => c != '\n'
  | _ => false

/-- Whether the token may take nothing. -/
def Token.isRun : Token → Bool
  | run => true
  | _ => false

/-- The bytes that a token takes in the compiled program: a wildcard is an automaton over the
encodings of all characters but the line feed, with one state more for a run, and a literal
character has one state for each of its bytes. -/
def Token.weight : Token → Nat
  | run => 1040
  | one => 1000
  | exactly c => 32 * c.utf8Size

/-- The bytes that a compiled program may take. -/
def sizeLimit : Nat := 10485760

/-- The bytes that a glob takes: those of its tokens, and those that every program takes for its two
anchors and its ends. -/
def size (tokens : List Token) : Nat := tokens.foldl (fun n t => n + t.weight) 192

/-- The longest globs of one wildcard, and of one literal byte, that are accepted. -/
example : [Token.one, .run, .exactly 'a'].map (fun t => (sizeLimit - size []) / t.weight) =
    [10485, 10082, 327674] := by decide

end Glob

/-- A glob of an accepted size. -/
structure Glob where
  pattern : String
  tokens : List Glob.Token
  tokens_eq : tokens = pattern.toList.map Glob.Token.ofChar
  size_le : Glob.size tokens ≤ Glob.sizeLimit

namespace Glob

/-- The detail of the refusal of a pattern that is too large. -/
def tooLarge (pattern : String) : String :=
  Text.quote pattern ++ ": Compiled regex exceeds size limit of " ++ toString sizeLimit ++ " bytes."

/-- The glob of a pattern. -/
def compile (pattern : String) : Except DomainError Glob :=
  if h : size (pattern.toList.map Token.ofChar) ≤ sizeLimit then
    .ok ⟨pattern, pattern.toList.map Token.ofChar, rfl, h⟩
  else .error (.invalidPattern (tooLarge pattern))

/-- The marks at and after a place that is reached if `live`, before any further character. -/
def startRow : List Token → Bool → List Bool
  | _, false => []
  | [], true => [true]
  | token :: tokens, true => true :: startRow tokens token.isRun

/-- The row after one more character.  `carried` says that the first place has just been reached
from the place before it. -/
def stepRow (c : Char) : List Token → List Bool → Bool → List Bool
  | [], _, carried => if carried then [true] else []
  | token :: tokens, [], carried =>
    if carried then true :: stepRow c tokens [] token.isRun else []
  | token :: tokens, live :: row, carried =>
    let here := carried || (live && token.stays c)
    here :: stepRow c tokens row ((live && token.takes c) || (here && token.isRun))

/-- Drops the places at the front that are not reached. -/
def dropDead : List Token → List Bool → List Token × List Bool
  | _ :: tokens, false :: row => dropDead tokens row
  | tokens, row => (tokens, row)

/-- Whether the last place is reached. -/
def atEnd (tokens : List Token) (row : List Bool) : Bool := row[tokens.length]? == some true

/-- Whether the rest of an id can be taken from the places of the row on. -/
def acceptsFrom : List Token → List Bool → List Char → Bool
  | tokens, row, [] => atEnd tokens row
  | tokens, row, c :: rest =>
    match dropDead tokens (stepRow c tokens row false) with
    | (_, []) => false
    | (tokens, row) => acceptsFrom tokens row rest

/-- Whether the glob takes the whole id. -/
def accepts (g : Glob) (id : String) : Bool :=
  acceptsFrom g.tokens (startRow g.tokens true) id.toList

/-- The ids that the glob takes, in their order. -/
def filter (g : Glob) (ids : List String) : List String := ids.filter g.accepts

end Glob

end EntityCache
