import EntityCache.Yaml.Scalar

/-!
# Layout of YAML text

`Layout.tokens?` finds the tokens of a text.  On the way it keeps the columns at which the open
blocks begin, and for the current collection the place of a key that would be recognised by a colon
after it: the colon then puts `key`, and `blockMappingStart` if a mapping begins here, in front of
what has been read since.  Such a key stands on one line and has at most 1024 characters.

A layout has no tokens where a character can start none, or a collection or a key stands where none
may.
-/

namespace EntityCache

namespace Yaml

/-- A place where a key may begin. -/
structure PossibleKey where
  /-- The number of tokens before it. -/
  position : Nat
  place : Place
  /-- Nothing but a key can begin here. -/
  isRequired : Bool

/-- A text that is being cut into tokens. -/
structure Layout where
  rest : List Char
  place : Place := {}
  /-- The tokens so far, newest first. -/
  tokens : List Token := []
  /-- The columns of the open blocks, innermost first. -/
  indents : List Nat := []
  /-- Whether a key may begin at the next token. -/
  keyAllowed : Bool := true
  /-- The possible key of the innermost collection. -/
  key : Option PossibleKey := none
  /-- The possible keys outside of each open flow collection, innermost first. -/
  outerKeys : List (Option PossibleKey) := []

namespace Layout

/-- Whether a flow collection is open. -/
def inFlow (l : Layout) : Bool := !l.outerKeys.isEmpty

/-- Adds a token. -/
def put (token : Token) (l : Layout) : Layout := { l with tokens := token :: l.tokens }

/-- Takes the next character. -/
def advance (l : Layout) : Layout :=
  match l.rest with
  | [] => l
  | c :: rest => { l with rest, place := l.place.step c }

/-- Takes characters. -/
def advanceBy (n : Nat) (l : Layout) : Layout :=
  { l with rest := l.rest.drop n, place := l.place.steps (l.rest.take n) }

/-! ## Blanks and comments -/

/-- Skips blanks, line ends and comments; the first flag tells whether a comment is being skipped.
A line end outside of flow collections allows a key again, and where a key may begin a tab is no
blank. -/
def skipBlanks (inComment inFlow : Bool) : (keyAllowed : Bool) → List Char → Place → List Char × Place × Bool
  | keyAllowed, [], p => ([], p, keyAllowed)
  | keyAllowed, c :: rest, p =>
    if isBreak c then skipBlanks false inFlow (keyAllowed || !inFlow) rest (p.step c)
    else if inComment || c == '#' then skipBlanks true inFlow keyAllowed rest (p.step c)
    else if c == ' ' || (c == '\t' && (inFlow || !keyAllowed)) then
      skipBlanks false inFlow keyAllowed rest (p.step c)
    else (c :: rest, p, keyAllowed)

/-- Moves to the next token. -/
def toToken (l : Layout) : Layout :=
  let (rest, place, keyAllowed) := skipBlanks false l.inFlow l.keyAllowed l.rest l.place
  { l with rest, place, keyAllowed }

/-! ## Keys -/

/-- A possible key as long as it is one: it stands on the line of `p` and not too far before.
`none` if a required key is given up. -/
def keepKey (p : Place) : Option PossibleKey → Option (Option PossibleKey)
  | none => some none
  | some k =>
    if k.place.line < p.line || k.place.index + 1024 < p.index then
      if k.isRequired then none else some none
    else some (some k)

/-- Gives up the possible keys that have been left behind. -/
def dropStaleKeys (l : Layout) : Option Layout := do
  let key ← keepKey l.place l.key
  let outerKeys ← l.outerKeys.mapM (keepKey l.place)
  return { l with key, outerKeys }

/-- Gives up the possible key of the innermost collection. -/
def dropKey (l : Layout) : Option Layout :=
  match l.key with
  | some k => if k.isRequired then none else some { l with key := none }
  | none => some l

/-- Remembers that a key may begin here. -/
def saveKey (l : Layout) : Option Layout :=
  if l.keyAllowed then
    l.dropKey.map fun l =>
      { l with
        key := some
          { position := l.tokens.length
            place := l.place
            isRequired := !l.inFlow && l.indents.head? == some l.place.column } }
  else some l

/-! ## Blocks -/

/-- Whether a block that begins at a column lies deeper than the open ones. -/
def isDeeper (column : Nat) (l : Layout) : Bool := l.indents.head?.all (· < column)

/-- Puts tokens where `position` tokens stand before them. -/
def insertAt (position : Nat) (tokens : List Token) (l : Layout) : Layout :=
  let newer := l.tokens.length - position
  { l with tokens := l.tokens.take newer ++ tokens.reverse ++ l.tokens.drop newer }

/-- Opens a block at a column, outside of flow collections and if it lies deeper than the open ones;
the tokens `after` follow its start. -/
def openBlock (column position : Nat) (start : Token) (after : List Token) (l : Layout) : Layout :=
  if !l.inFlow && l.isDeeper column then
    { l with indents := column :: l.indents }.insertAt position (start :: after)
  else l.insertAt position after

/-- The number of open blocks that begin right of a column. -/
def deeperBlocks (column : Nat) (l : Layout) : Nat := (l.indents.takeWhile (column < ·)).length

/-- Closes a number of blocks. -/
def closeBlocks (n : Nat) (l : Layout) : Layout :=
  { l with indents := l.indents.drop n, tokens := List.replicate n .blockEnd ++ l.tokens }

/-- Closes the blocks that begin right of the current column, outside of flow collections. -/
def closeDeeperBlocks (l : Layout) : Layout :=
  if l.inFlow then l else l.closeBlocks (l.deeperBlocks l.place.column)

/-- Closes all blocks, as the end of a document does, outside of flow collections. -/
def closeAllBlocks (l : Layout) : Layout :=
  if l.inFlow then l else l.closeBlocks l.indents.length

/-! ## Tokens -/

/-- Ends what the document holds. -/
def endContent (l : Layout) : Option Layout :=
  l.closeAllBlocks.dropKey.map fun l => { l with keyAllowed := false }

/-- What stands on the line of a directive. -/
def directive? (line : List Char) : Option Token :=
  let word (cs : List Char) : List Char := cs.takeWhile fun c => !isBlank c
  let after (cs : List Char) : List Char := (cs.dropWhile fun c => !isBlank c).dropWhile isBlank
  let noMore (cs : List Char) : Bool := cs.isEmpty || cs.head? == some '#'
  let arguments := after line
  match String.ofList (word line) with
  | "YAML" =>
    let number := word arguments
    if (number == ['1', '.', '1'] || number == ['1', '.', '2']) && noMore (after arguments) then
      some .version
    else none
  | "TAG" =>
    let expansion := word (after arguments)
    if (word arguments).head? == some '!' && !expansion.isEmpty && noMore (after (after arguments)) then
      some (.tagHandle (String.ofList (word arguments)) (String.ofList expansion))
    else none
  | _ => none

/-- Takes a directive. -/
def takeDirective (l : Layout) : Option Layout := do
  let l ← l.endContent
  let line := l.rest.takeWhile fun c => !isBreak c
  let token ← directive? line.tail
  return (l.advanceBy line.length).put token

/-- Takes the mark of a document's start or end. -/
def takeMarker (token : Token) (l : Layout) : Option Layout :=
  l.endContent.map fun l => (l.advanceBy 3).put token

/-- Takes the start of a flow collection. -/
def takeFlowStart (token : Token) (l : Layout) : Option Layout :=
  l.saveKey.map fun l =>
    { l.advance.put token with keyAllowed := true, key := none, outerKeys := l.key :: l.outerKeys }

/-- Takes the end of a flow collection. -/
def takeFlowEnd (token : Token) (l : Layout) : Option Layout :=
  l.dropKey.map fun l =>
    let l := { l.advance.put token with keyAllowed := false }
    match l.outerKeys with
    | key :: outerKeys => { l with key, outerKeys }
    | [] => l

/-- Takes the comma between the entries of a flow collection. -/
def takeFlowEntry (l : Layout) : Option Layout :=
  l.dropKey.map fun l => { l.advance.put .flowEntry with keyAllowed := true }

/-- Takes the dash of a sequence. -/
def takeBlockEntry (l : Layout) : Option Layout :=
  if !l.inFlow && !l.keyAllowed then none
  else
    (l.openBlock l.place.column l.tokens.length .blockSequenceStart []).dropKey.map fun l =>
      { l.advance.put .blockEntry with keyAllowed := true }

/-- Takes the question mark of a key. -/
def takeKey (l : Layout) : Option Layout :=
  if !l.inFlow && !l.keyAllowed then none
  else
    (l.openBlock l.place.column l.tokens.length .blockMappingStart []).dropKey.map fun l =>
      { l.advance.put .key with keyAllowed := !l.inFlow }

/-- Takes the colon before a value. -/
def takeValue (l : Layout) : Option Layout :=
  match l.key with
  | some k =>
    let l := l.openBlock k.place.column k.position .blockMappingStart [.key]
    some { l.advance.put .value with key := none, keyAllowed := false }
  | none =>
    if l.inFlow then some { l.advance.put .value with keyAllowed := false }
    else if !l.keyAllowed then none
    else
      let l := l.openBlock l.place.column l.tokens.length .blockMappingStart []
      some { l.advance.put .value with keyAllowed := true }

/-- An indicator that may follow the name of an alias or an anchor. -/
def isNameEnd (c : Char) : Bool :=
  ['?', ':', ',', ']', '}', '%', '@', '\x60'].contains c

/-- Takes an alias or an anchor. -/
def takeName (token : String → Token) (l : Layout) : Option Layout := do
  let l ← l.saveKey
  let l := l.advance
  let name := l.rest.takeWhile isNameChar
  let after := l.rest.drop name.length
  let endsName := blankNext after || after.head?.any fun c => isNameEnd c
  if name.isEmpty || !endsName then none
  else return { (l.advanceBy name.length).put (token (String.ofList name)) with keyAllowed := false }

/-- A character of a tag outside of angle brackets. -/
def isTagChar (c : Char) : Bool := isNameChar c || "%;/?:@&=+$.~*()".toList.contains c || c == '\''

/-- The handle and the rest of a tag without its first exclamation mark, and its length. -/
def tag? (cs : List Char) : Option (String × String × Nat) :=
  match cs with
  | '<' :: cs =>
    let name := cs.takeWhile fun c => isTagChar c || c == '!' || c == ',' || c == '[' || c == ']'
    if name.isEmpty || (cs.drop name.length).head? != some '>' then none
    else some ("", String.ofList name, name.length + 2)
  | _ =>
    let word := cs.takeWhile isNameChar
    match cs.drop word.length with
    | '!' :: after =>
      let suffix := after.takeWhile isTagChar
      if suffix.isEmpty then none
      else
        some ("!" ++ String.ofList word ++ "!", String.ofList suffix, word.length + 1 + suffix.length)
    | _ =>
      let suffix := cs.takeWhile isTagChar
      if suffix.isEmpty then some ("", "!", 0) else some ("!", String.ofList suffix, suffix.length)

/-- Takes a tag. -/
def takeTag (l : Layout) : Option Layout := do
  let l ← l.saveKey
  let l := l.advance
  let (handle, suffix, length) ← tag? l.rest
  let l := l.advanceBy length
  if blankNext l.rest || (l.inFlow && l.rest.head? == some ',') then
    return { l.put (.tag handle suffix) with keyAllowed := false }
  else none

/-- Takes what has been read of a scalar. -/
def putScalar (isPlain keyAllowed : Bool) (s : Scanned) (l : Layout) : Layout :=
  { l with rest := s.rest, place := s.place, keyAllowed }.put (.scalar s.text isPlain)

/-- Takes a block of lines. -/
def takeBlock (folds : Bool) (l : Layout) : Option Layout := do
  let l ← l.dropKey
  let l := l.advance
  return l.putScalar false true (← readBlock folds l.indents.head? l.rest l.place)

/-- Takes a quoted scalar. -/
def takeQuoted (read : List Char → Place → Folding → Option Scanned) (l : Layout) : Option Layout := do
  let l ← l.saveKey
  let l := l.advance
  return l.putScalar false false (← read l.rest l.place {})

/-- Takes a plain scalar. -/
def takePlain (l : Layout) : Option Layout := do
  let l ← l.saveKey
  let s ← readPlain l.inFlow (l.indents.head?.elim 0 (· + 1)) l.rest l.place {}
  return l.putScalar true s.endsLine s

/-- A character that a plain scalar cannot begin with. -/
def isIndicator (c : Char) : Bool :=
  [',', '[', ']', '{', '}', '#', '&', '*', '!', '|', '>', '\'', '"', '%', '@', '\x60'].contains c

/-- Whether a plain scalar can begin with a character, `rest` being what follows it. -/
def startsPlain (inFlow : Bool) (c : Char) (rest : List Char) : Bool :=
  if c == '-' then !(rest.head?.any isBlank)
  else if c == '?' || c == ':' then !inFlow && !blankNext rest
  else !(isBlank c || isIndicator c)

/-- Takes the next token, which begins with `c`. -/
def takeToken (c : Char) (rest : List Char) (l : Layout) : Option Layout :=
  if l.place.column == 0 && c == '%' then l.takeDirective
  else if l.place.column == 0 && markerNext (c :: rest) then
    l.takeMarker (if c == '-' then .documentStart else .documentEnd)
  else
    match c with
    | '[' => l.takeFlowStart .flowSequenceStart
    | '{' => l.takeFlowStart .flowMappingStart
    | ']' => l.takeFlowEnd .flowSequenceEnd
    | '}' => l.takeFlowEnd .flowMappingEnd
    | ',' => l.takeFlowEntry
    | '*' => l.takeName .alias
    | '&' => l.takeName .anchor
    | '!' => l.takeTag
    | '\'' => l.takeQuoted readSingle
    | '"' => l.takeQuoted (readDouble none)
    | _ =>
      if c == '-' && blankNext rest then l.takeBlockEntry
      else if c == '?' && (l.inFlow || blankNext rest) then l.takeKey
      else if c == ':' && (l.inFlow || blankNext rest) then l.takeValue
      else if c == '|' && !l.inFlow then l.takeBlock false
      else if c == '>' && !l.inFlow then l.takeBlock true
      else if startsPlain l.inFlow c rest then l.takePlain
      else none

/-- Ends the text. -/
def finish (l : Layout) : Option (List Token) := l.endContent.map fun l => l.tokens.reverse

/-- The tokens of a text that is cut in at most `steps` steps. -/
def run : (steps : Nat) → Layout → Option (List Token)
  | 0, _ => none
  | steps + 1, l =>
    match l.toToken.dropStaleKeys with
    | none => none
    | some l =>
      match l.rest with
      | [] => l.finish
      | c :: rest =>
        match l.closeDeeperBlocks.takeToken c rest with
        | none => none
        | some l => run steps l

/-- The tokens of a text; every step takes a character at least. -/
def tokens? (text : String) : Option (List Token) :=
  let cs := withoutMark text.toList
  if cs.all isPrintable then run (cs.length + 1) { rest := uniform cs } else none

end Layout

end Yaml

end EntityCache
