/-!
# A directory tree

`Files` is the tree below a working directory, as a map from the path of an entry to the entry.  A
path in the map is the list of names from the working directory down; the working directory itself
has the empty path and is always there.
-/

namespace EntityCache

namespace Storage

/-- An entry of the tree, with the content of a database file as `α`. -/
inductive Entry (α : Type) where
  | directory
  /-- A file that is no database. -/
  | plain
  | database (content : α)
deriving DecidableEq, Repr

/-- The entries below the working directory by path. -/
structure Files (α : Type) where
  entries : List (List String × Entry α) := []

namespace Files

variable {α : Type}

/-- The entry at a path. -/
def at? (path : List String) (f : Files α) : Option (Entry α) :=
  if path.isEmpty then some .directory else f.entries.lookup path

/-- Makes `entry` the entry at a path. -/
def put (path : List String) (entry : Entry α) (f : Files α) : Files α :=
  { entries := (path, entry) :: f.entries.filter (·.1 != path) }

/-! ## Paths -/

/-- The steps that the text of a path stands for. -/
def steps (path : String) : List String := (splitAt '/' path.toList).filter fun s => s != "" && s != "."
where
  /-- The pieces between the separators. -/
  splitAt (separator : Char) : List Char → List String
    | [] => [""]
    | c :: rest =>
      let pieces := splitAt separator rest
      if c == separator then "" :: pieces
      else match pieces with
        | piece :: others => String.ofList (c :: piece.toList) :: others
        | [] => [String.ofList [c]]

/-- One step down, or up. -/
def step (path : List String) (name : String) : List String :=
  if name == ".." then path.dropLast else path ++ [name]

/-- The path that steps lead to. -/
def resolve (names : List String) : List String := names.foldl step []

/-- Walks steps from a directory and makes the directories that are missing; `none` if something on
the way is no directory. -/
def createDirectories (path : List String) : List String → Files α → Option (Files α)
  | [], f => some f
  | name :: rest, f =>
    let next := step path name
    match f.at? next with
    | some .directory => createDirectories next rest f
    | some _ => none
    | none => createDirectories next rest (f.put next .directory)

/-- The entry that the text of a path leads to, where every entry on the way is a directory. -/
def find? (path : String) (f : Files α) : Option (Entry α) :=
  if path.isEmpty then none
  else
    let names := steps path
    let onTheWay := (List.range names.length).map fun n => f.at? (resolve (names.take n))
    let isDirectory (e : Option (Entry α)) : Bool :=
      match e with
      | some .directory => true
      | _ => false
    if onTheWay.all isDirectory then f.at? (resolve names) else none

/-- Whether the text of a path leads to a file. -/
def isFile (path : String) (f : Files α) : Bool :=
  match f.find? path with
  | some .plain | some (.database _) => !(path.endsWith "/" || path.endsWith "/.")
  | _ => false

end Files

end Storage

end EntityCache
