import EntityCache.Json.Reader
import EntityCache.Yaml.Token

/-!
# Scalars of YAML text

A scalar is written plain, in single or double quotes, or as a block of lines.  Inside the first
three a single end of line counts as a blank, and each further one as itself; blanks around it do
not count.  `Folding` is the text of a scalar while it is read, with the blanks and line ends that
have been met since its last character.
-/

namespace EntityCache

namespace Yaml

/-- The text of a scalar so far; all lists are backwards. -/
structure Folding where
  text : List Char := []
  blanks : List Char := []
  /-- A line has ended since the last character. -/
  atBreak : Bool := false
  /-- The end of that line. -/
  firstBreak : Option Char := none
  laterBreaks : List Char := []

namespace Folding

/-- Meets a blank. -/
def blank (c : Char) (f : Folding) : Folding :=
  if f.atBreak then f else { f with blanks := c :: f.blanks }

/-- Meets the end of a line. -/
def lineBreak (c : Char) (f : Folding) : Folding :=
  if f.atBreak then { f with laterBreaks := c :: f.laterBreaks }
  else { f with blanks := [], atBreak := true, firstBreak := some c }

/-- Whether there are blanks or line ends since the last character. -/
def isOpen (f : Folding) : Bool := f.atBreak || !f.blanks.isEmpty

/-- Makes the blanks and line ends part of the text. -/
def close (f : Folding) : Folding :=
  let text :=
    if f.atBreak then
      match f.firstBreak with
      | some '\n' => if f.laterBreaks.isEmpty then ' ' :: f.text else f.laterBreaks ++ f.text
      | some c => f.laterBreaks ++ c :: f.text
      | none => f.laterBreaks ++ f.text
    else f.blanks ++ f.text
  { text }

/-- Meets a character of the text. -/
def push (c : Char) (f : Folding) : Folding :=
  let f := f.close
  { f with text := c :: f.text }

/-- The text. -/
def result (f : Folding) : String := String.ofList f.text.reverse

end Folding

/-- A scalar that has been read, with the text and the place after it. -/
structure Scanned where
  text : String
  rest : List Char
  place : Place
  /-- A line ends between the last character and the text after it. -/
  endsLine : Bool := false

/-! ## Plain scalars -/

/-- Whether a character ends a plain scalar, `rest` being what follows it. -/
def endsPlain (inFlow : Bool) (c : Char) (rest : List Char) : Bool :=
  (c == ':' && blankNext rest) ||
    (inFlow && (c == ',' || c == '[' || c == ']' || c == '{' || c == '}'))

/-- Whether an indicator of a flow collection comes next. -/
def flowIndicatorNext : List Char → Bool
  | c :: _ => c == ',' || c == '?' || c == '[' || c == ']' || c == '{' || c == '}'
  | [] => false

/-- Reads a plain scalar; the lines after its first have to be indented by `indent`. -/
def readPlain (inFlow : Bool) (indent : Nat) : List Char → Place → Folding → Option Scanned
  | [], p, f => some ⟨f.result, [], p, f.atBreak⟩
  | c :: rest, p, f =>
    if isBlank c then
      if f.atBreak && p.column < indent && c == '\t' then none
      else readPlain inFlow indent rest (p.step c) (f.blank c)
    else if isBreak c then readPlain inFlow indent rest (p.step c) (f.lineBreak c)
    else if f.isOpen &&
        (c == '#' || (!inFlow && p.column < indent) || (p.column == 0 && markerNext (c :: rest))) then
      some ⟨f.result, c :: rest, p, f.atBreak⟩
    else if inFlow && c == ':' && flowIndicatorNext rest then none
    else if endsPlain inFlow c rest then some ⟨f.result, c :: rest, p, f.atBreak⟩
    else readPlain inFlow indent rest (p.step c) (f.push c)

/-! ## Quoted scalars -/

/-- Reads the rest of a scalar in single quotes, in which a quote is written twice. -/
def readSingle : List Char → Place → Folding → Option Scanned
  | [], _, _ => none
  | '\'' :: '\'' :: rest, p, f => readSingle rest ((p.step '\'').step '\'') (f.push '\'')
  | c :: rest, p, f =>
    if isBlank c then readSingle rest (p.step c) (f.blank c)
    else if isBreak c then readSingle rest (p.step c) (f.lineBreak c)
    else if p.column == 0 && markerNext (c :: rest) then none
    else if c == '\'' then some { text := f.close.result, rest, place := p.step c }
    else readSingle rest (p.step c) (f.push c)

/-- What an escape stands for: a character, or the number of hexadecimal digits that give one. -/
inductive Escape where
  | char (c : Char)
  | digits (n : Nat)

/-- The escape of a letter after a backslash. -/
def escape? (c : Char) : Option Escape :=
  match c with
  | '0' => some (.char '\x00')
  | 'a' => some (.char '\x07')
  | 'b' => some (.char '\x08')
  | 't' | '\t' => some (.char '\t')
  | 'n' => some (.char '\n')
  | 'v' => some (.char '\x0b')
  | 'f' => some (.char '\x0c')
  | 'r' => some (.char '\r')
  | 'e' => some (.char '\x1b')
  | ' ' => some (.char ' ')
  | '"' => some (.char '"')
  | '/' => some (.char '/')
  | '\\' => some (.char '\\')
  | 'N' => some (.char '\u0085')
  | '_' => some (.char '\u00a0')
  | 'L' => some (.char '\u2028')
  | 'P' => some (.char '\u2029')
  | 'x' => some (.digits 2)
  | 'u' => some (.digits 4)
  | 'U' => some (.digits 8)
  | _ => none

/-- Reads the rest of a scalar in double quotes.  While an escape by number is read, `pending` holds
the count of its digits that are still to come, and its value so far. -/
def readDouble (pending : Option (Nat × Nat)) : List Char → Place → Folding → Option Scanned
  | [], _, _ => none
  | c :: rest, p, f =>
    match pending with
    | some (left, value) =>
      match Json.hexValue? c with
      | none => none
      | some digit =>
        let value := value * 16 + digit
        if left ≤ 1 then
          if value.isValidChar then readDouble none rest (p.step c) (f.push (Char.ofNat value)) else none
        else readDouble (some (left - 1, value)) rest (p.step c) f
    | none =>
      if isBlank c then readDouble none rest (p.step c) (f.blank c)
      else if isBreak c then readDouble none rest (p.step c) (f.lineBreak c)
      else if p.column == 0 && markerNext (c :: rest) then none
      else if c == '"' then some { text := f.close.result, rest, place := p.step c }
      else if c == '\\' then
        match rest with
        | [] => none
        | e :: rest =>
          let p := (p.step c).step e
          if isBreak e then readDouble none rest p { f.close with atBreak := true }
          else
            match escape? e with
            | some (.char x) => readDouble none rest p (f.push x)
            | some (.digits n) => readDouble (some (n, 0)) rest p f
            | none => none
      else readDouble none rest (p.step c) (f.push c)

/-! ## Blocks of lines -/

/-- What becomes of the line ends after the last line of a block. -/
inductive Chomping where
  | strip
  | clip
  | keep
deriving DecidableEq, Repr

/-- A line and its end, which is missing where the text ends first. -/
abbrev Line := List Char × Option Char

/-- The lines of a text. -/
def linesOf : List Char → List Line
  | [] => []
  | c :: rest =>
    if isBreak c then ([], some c) :: linesOf rest
    else
      match linesOf rest with
      | (line, lineEnd) :: lines => (c :: line, lineEnd) :: lines
      | [] => [([c], none)]

/-- The text of lines. -/
def unlines (lines : List Line) : List Char := lines.flatMap fun (line, lineEnd) => line ++ lineEnd.toList

/-- The number of spaces that a line begins with. -/
def leadingSpaces (line : List Char) : Nat := (line.takeWhile (· == ' ')).length

/-- The sign for chomping at the head of a text, if there is one. -/
def chomping? : List Char → Option Chomping
  | '+' :: _ => some .keep
  | '-' :: _ => some .strip
  | _ => none

/-- The digit for indentation at the head of a text, if there is one; 0 is refused. -/
def indentation? : List Char → Option (Option Nat)
  | c :: _ => if c.isDigit then if c == '0' then none else some (some (c.toNat - '0'.toNat)) else some none
  | [] => some none

/-- The sign and the digit after the indicator of a block, in any order, and the text after them. -/
def blockHeader? (cs : List Char) : Option (Chomping × Option Nat × List Char) :=
  match chomping? cs with
  | some chomping =>
    (indentation? cs.tail).map fun digit =>
      (chomping, digit, if digit.isSome then cs.tail.tail else cs.tail)
  | none =>
    (indentation? cs).map fun digit =>
      match digit with
      | none => (.clip, none, cs)
      | some n =>
        match chomping? cs.tail with
        | some chomping => (chomping, some n, cs.tail.tail)
        | none => (.clip, some n, cs.tail)

/-- The indentation of a block without a digit: that of its first line with a character on it, and
at least that of the empty lines before; `none` if a tab stands where a space should. -/
def detectIndent (found : Nat) : List Line → Option Nat
  | [] => some found
  | (line, lineEnd) :: rest =>
    let found := max found (leadingSpaces line)
    match line.drop (leadingSpaces line), lineEnd with
    | '\t' :: _, _ => none
    | [], some _ => detectIndent found rest
    | _, _ => some found

/-- The text of a block so far, backwards. -/
structure BlockText where
  text : List Char := []
  /-- The end of the last line. -/
  lastBreak : Option Char := none
  /-- The empty lines since then. -/
  emptyLines : List Char := []
  /-- The last line began with a blank. -/
  wasBlank : Bool := false

/-- Adds a line. -/
def BlockText.addLine (folds : Bool) (line : List Char) (lineEnd : Option Char) (b : BlockText) :
    BlockText :=
  let isBlankLine := (line.head?.map isBlank).getD false
  let text :=
    if folds && b.lastBreak == some '\n' && !b.wasBlank && !isBlankLine then
      if b.emptyLines.isEmpty then ' ' :: b.text else b.text
    else b.lastBreak.toList ++ b.text
  { text := line.reverse ++ (b.emptyLines ++ text), lastBreak := lineEnd, wasBlank := isBlankLine }

/-- The text of a block that has ended. -/
def BlockText.result (chomping : Chomping) (b : BlockText) : String :=
  let text :=
    match chomping with
    | .strip => b.text
    | .clip => b.lastBreak.toList ++ b.text
    | .keep => b.emptyLines ++ (b.lastBreak.toList ++ b.text)
  String.ofList text.reverse

/-- Reads the lines of a block that is indented by `indent`; answers its text and the lines after
it. -/
def readBlockLines (folds : Bool) (indent : Nat) : List Line → BlockText → Option (BlockText × List Line)
  | [], b => some (b, [])
  | (line, lineEnd) :: rest, b =>
    let spaces := min (leadingSpaces line) indent
    match line.drop spaces, lineEnd with
    | [], some c => readBlockLines folds indent rest { b with emptyLines := c :: b.emptyLines }
    | [], none => some (b, (line, lineEnd) :: rest)
    | c :: content, lineEnd =>
      if spaces < indent then if c == '\t' then none else some (b, (line, lineEnd) :: rest)
      else readBlockLines folds indent rest (b.addLine folds (c :: content) lineEnd)

/-- Reads a block after its indicator, inside a block that is indented by `outer`, or by nothing. -/
def readBlock (folds : Bool) (outer : Option Nat) (cs : List Char) (p : Place) : Option Scanned :=
  match blockHeader? cs with
  | none => none
  | some (chomping, digit, rest) =>
    let rest := rest.dropWhile isBlank
    let rest := if rest.head? == some '#' then rest.dropWhile fun c => !isBreak c else rest
    match rest with
    | c :: after =>
      if isBreak c then
        let lines := linesOf after
        let indent :=
          match digit with
          | some n => some (outer.getD 0 + n)
          | none => (detectIndent 0 lines).map fun n => max n (max 1 (outer.elim 0 (· + 1)))
        match indent with
        | none => none
        | some indent =>
          (readBlockLines folds indent lines {}).map fun (b, left) =>
            let rest := unlines left
            let consumed := cs.take (cs.length - rest.length)
            { text := b.result chomping, rest, place := p.steps consumed }
      else none
    | [] => some { text := "", rest := [], place := p.steps cs }

end Yaml

end EntityCache
