import EntityCache.Schema.Catalog

/-!
# Statements

A `Statement` changes a database, or fails and changes nothing.  Those that make and take away
tables and indexes are spelled out; any other is given by what it does to the database, whatever
that is.  None of them begins or ends a transaction, or sets up a trigger on the table of the
records.

`Statement.readAll` reads a sequence of statements with semicolons in between; keywords may have any
letter case, and a comment goes from two hyphens to the end of its line.  A text that goes wrong
becomes the statements before the mistake and a `malformed` statement at its place, so the mistake
is found only after the statements before it have run.
-/

namespace EntityCache

namespace Schema

/-- A statement. -/
inductive Statement where
  /-- Makes a table; if it is there already that is an error, or fine with `unlessExists`. -/
  | createTable (name : String) (unlessExists : Bool := false)
  | createIndex (name table : String) (unlessExists : Bool := false)
  | dropTable (name : String) (ifExists : Bool := false)
  /-- Deletes all rows of a table. -/
  | deleteFrom (table : String)
  /-- Any other statement, as what it makes of a database. -/
  | other (effect : Catalog → Except SqlError Catalog)
  | malformed (error : SqlError)

namespace Catalog

/-- Executes a statement. -/
def execute (c : Catalog) : Statement → Except SqlError Catalog
  | .createTable name unlessExists =>
    if c.has name then if unlessExists then .ok c else .error (.tableExists name)
    else if c.hasIndex name then .error (.indexNamed name)
    else .ok (c.create name)
  | .createIndex name table unlessExists =>
    if !c.has table then .error (.noSuchTable ("main." ++ table))
    else if c.has name then .error (.tableNamed name)
    else if c.hasIndex name then if unlessExists then .ok c else .error (.indexExists name)
    else .ok { c with indexes := c.indexes ++ [⟨name, table⟩] }
  | .dropTable name ifExists =>
    if c.has name then .ok (c.drop name) else if ifExists then .ok c else .error (.noSuchTable name)
  | .deleteFrom table => if c.has table then .ok (c.clear table) else .error (.noSuchTable table)
  | .other effect => effect c
  | .malformed e => .error e

/-- Executes statements up to the first that fails. -/
def executeAll : List Statement → Catalog → Except SqlError Catalog
  | [], c => .ok c
  | s :: rest, c => (c.execute s).bind (executeAll rest)

end Catalog

namespace Statement

/-! ## Tokens -/

/-- A character of a word. -/
def isWordChar (c : Char) : Bool := c.isAlphanum || c == '_' || c == '$' || c.toNat ≥ 128

/-- A character between tokens. -/
def isBlank (c : Char) : Bool := c == ' ' || c == '\t' || c == '\n' || c == '\r' || c == '\x0c'

/-- Puts a word, given backwards, in front of the tokens that follow it. -/
def closeWord (word : List Char) (rest : List String) : List String :=
  if word.isEmpty then rest else String.ofList word.reverse :: rest

/-- Words, and single characters that are none, with the word at hand backwards. -/
def tokensFrom (word : List Char) (inComment : Bool) : List Char → List String
  | [] => closeWord word []
  | c :: rest =>
    if inComment then tokensFrom [] (c != '\n') rest
    else if isWordChar c then tokensFrom (c :: word) false rest
    else if isBlank c then closeWord word (tokensFrom [] false rest)
    else if c == '-' && rest.head? == some '-' then closeWord word (tokensFrom [] true rest)
    else closeWord word (String.ofList [c] :: tokensFrom [] false rest)

/-- The tokens of a text. -/
def tokens (text : String) : List String := tokensFrom [] false text.toList

/-- Whether a token is a word that does not begin with a digit. -/
def isName (token : String) : Bool :=
  match token.toList with
  | c :: _ => isWordChar c && !c.isDigit && c != '$'
  | [] => false

/-- Whether a token is a keyword. -/
def isKeyword (keyword token : String) : Bool := token.toUpper == keyword

/-! ## Reading

Where a statement ends too early, the mistake is at its end, which is named by `finish`.
-/

/-- Reads a keyword. -/
def readKeyword (finish : SqlError) (keyword : String) : List String → Except SqlError (List String)
  | [] => .error finish
  | token :: rest => if isKeyword keyword token then .ok rest else .error (.near token)

/-- Reads a name. -/
def readName (finish : SqlError) : List String → Except SqlError (String × List String)
  | [] => .error finish
  | token :: rest => if isName token then .ok (token, rest) else .error (.near token)

/-- Reads some keywords in a row, if all of them are there. -/
def skipPhrase (phrase tokens : List String) : Bool × List String :=
  if phrase.length ≤ tokens.length && (phrase.zip tokens).all fun (keyword, token) =>
      isKeyword keyword token then
    (true, tokens.drop phrase.length)
  else (false, tokens)

/-- Reads the end of a statement. -/
def readEnd : List String → Except SqlError Unit
  | [] => .ok ()
  | token :: _ => .error (.near token)

/-- Reads columns, each a name and what is said of it, up to the end of the statement. -/
def readColumns (finish : SqlError) : List String → Except SqlError Unit
  | [] => .error finish
  | token :: rest => if isName token then inColumn rest else .error (.near token)
where
  /-- Reads on after the name of a column. -/
  inColumn : List String → Except SqlError Unit
    | [] => .error finish
    | "," :: rest => readColumns finish rest
    | "(" :: rest => inGroup rest
    | ")" :: rest => readEnd rest
    | token :: rest => if isName token then inColumn rest else .error (.near token)
  /-- Reads on in a list of names that is said of a column. -/
  inGroup : List String → Except SqlError Unit
    | [] => .error finish
    | ")" :: rest => inColumn rest
    | token :: rest => if isName token || token == "," then inGroup rest else .error (.near token)

/-- Reads the columns of a table or an index in their brackets. -/
def readBrackets (finish : SqlError) : List String → Except SqlError Unit
  | [] => .error finish
  | "(" :: rest => readColumns finish rest
  | token :: _ => .error (.near token)

/-- Reads on after the verb that makes something. -/
def readCreate (finish : SqlError) : List String → Except SqlError Statement
  | [] => .error finish
  | token :: rest =>
    let (unlessExists, after) := skipPhrase ["IF", "NOT", "EXISTS"] rest
    if isKeyword "TABLE" token then do
      let (name, rest) ← readName finish after
      readBrackets finish rest
      return .createTable name unlessExists
    else if isKeyword "INDEX" token then do
      let (name, rest) ← readName finish after
      let rest ← readKeyword finish "ON" rest
      let (table, rest) ← readName finish rest
      readBrackets finish rest
      return .createIndex name table unlessExists
    else .error (.near token)

/-- Reads one statement. -/
def read (finish : SqlError) : List String → Except SqlError Statement
  | [] => .error finish
  | verb :: rest =>
    if isKeyword "CREATE" verb then readCreate finish rest
    else if isKeyword "DROP" verb then do
      let rest ← readKeyword finish "TABLE" rest
      let (ifExists, rest) := skipPhrase ["IF", "EXISTS"] rest
      let (name, rest) ← readName finish rest
      readEnd rest
      return .dropTable name ifExists
    else if isKeyword "DELETE" verb then do
      let rest ← readKeyword finish "FROM" rest
      let (table, rest) ← readName finish rest
      readEnd rest
      return .deleteFrom table
    else .error (.near verb)

/-- Reads statements, with the tokens of the statement at hand backwards. -/
def readFrom (statement : List String) : List String → List Statement
  | [] => if statement.isEmpty then [] else outcome .incomplete []
  | ";" :: rest => if statement.isEmpty then readFrom [] rest else outcome (.near ";") (readFrom [] rest)
  | token :: rest => readFrom (token :: statement) rest
where
  /-- The statement at hand, and those after it if it can be read. -/
  outcome (finish : SqlError) (after : List Statement) : List Statement :=
    match read finish statement.reverse with
    | .ok s => s :: after
    | .error e => [.malformed e]

/-- The statements of a text. -/
def readAll (text : String) : List Statement := readFrom [] (tokens text)

end Statement

end Schema

end EntityCache
